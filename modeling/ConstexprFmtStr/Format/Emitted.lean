import Mathlib.Tactic
import ConstexprFmtStr.Format.Converter

/-!
What a specifier prints, as one text.

* `stringLength`: how many bytes of the string of its argument a specifier reads, if it is one
  for strings.
* `fieldBytes`, `emitted`: the text that `writeField` and `converterSingle` print in parts.
* `emitted_congr`: the text depends on the argument, and on the memory only through its string.
* `converterSingle_eq`: the parts are printed as one text, if the buffer does not overwrite the
  string while it is printed.
-/

namespace ConstexprFmtStr

open Slice Word

/-! ### Width and precision -/

/-- The width that is given, negative if the argument `W` is. -/
def givenWidth (SI : SpecInfo) (W : ℤ) : ℤ := if SI.width = dynamicWidth then W else SI.width

lemma resolve_width {SI : SpecInfo} (hwidth : SI.width = dynamicWidth ∨ 0 ≤ SI.width)
    (W P : ℤ) :
    (resolve SI W P).1 = |givenWidth SI W| ∧
      (resolve SI W P).2.2 =
        if givenWidth SI W < 0 then { SI.flags with ladjust := true } else SI.flags := by
  have habs : (if W < 0 then -W else W) = |W| := by
    split_ifs with hW
    · exact (abs_of_neg hW).symm
    · exact (abs_of_nonneg (not_lt.mp hW)).symm
  rw [resolve, givenWidth]
  by_cases hw : SI.width = dynamicWidth
  · rw [if_neg (by simp [hw]), if_pos hw]
    by_cases hp : SI.prec = dynamicPrecision
    · simp only [hw, hp, ne_eq, not_true, and_false, and_self, if_false, habs]
    · simp only [hw, hp, ne_eq, not_false_iff, and_self, if_true, habs]
  · have hnonneg := hwidth.resolve_left hw
    simp only [if_neg hw, abs_of_nonneg hnonneg, if_neg (not_lt.mpr hnonneg)]
    by_cases hp : SI.prec = dynamicPrecision
    · simp only [hw, hp, ne_eq, not_false_iff, and_self, if_true]
    · simp only [hw, hp, ne_eq, not_false_iff, and_self, if_true, if_false, and_false,
        false_and]

lemma resolve_prec (SI : SpecInfo) (W P : ℤ) :
    (resolve SI W P).2.1 =
      if SI.prec = dynamicPrecision then (if P < 0 then -1 else P) else SI.prec := by
  by_cases hw : SI.width = dynamicWidth <;> by_cases hp : SI.prec = dynamicPrecision <;>
    simp [resolve, hw, hp]

/-! ### One field -/

/-- The text of a field, with the characters of `texts` in it. -/
def fieldBytes (SI : SpecInfo) (W : ℤ) (f : Field) (texts : List UInt8 × List UInt8) :
    List UInt8 :=
  let pad (c : Char) := List.replicate (W - f.realsz SI).toNat c.toUInt8
  (if ¬f.flags.zeropad ∧ ¬f.flags.ladjust then pad ' ' else []) ++
    (if isSignedTerminal SI.terminal ∧ f.sign ≠ nul then [f.sign.toUInt8] else []) ++
    (if f.flags.zeropad ∧ ¬f.flags.ladjust then pad '0' else []) ++
    (if isIntTerminal SI.terminal then
      List.replicate (wrapS 32 (u64Sub (wrapU 64 f.P) f.size)).toNat '0'.toUInt8 else []) ++
    texts.1 ++
    (if isFloatTerminal SI.terminal then List.replicate f.fpprec.toNat '0'.toUInt8 else []) ++
    (if f.splitsExp SI then texts.2 else []) ++
    (if f.flags.ladjust then pad ' ' else [])

lemma OutbufArg.write_if (out : OutbufArg) (c : Prop) [Decidable c] (bs : List UInt8) :
    (if c then out.write bs else out) = out.write (if c then bs else []) := by
  split_ifs
  · rfl
  · rw [OutbufArg.write_nil]

/-- A field is printed as one text, if printing does not change its characters. -/
lemma writeField_eq {SI : SpecInfo} {W : ℤ} {f : Field} {out : OutbufArg}
    (h : ∀ bs, f.texts SI (out.write bs).mem = f.texts SI out.mem) :
    writeField SI W f out = out.write (fieldBytes SI W f (f.texts SI out.mem)) := by
  simp only [writeField, OutbufArg.writePaddings_eq, OutbufArg.writeChar_eq,
    OutbufArg.write_if]
  simp only [OutbufArg.write_append, h, fieldBytes, List.append_assoc]

/-- The text of one specifier with its argument. -/
def emitted (lib : CLib) (fmt : List Char) (SI : SpecInfo) (arg : Arg) (W P : ℤ) (mem : Mem) :
    List UInt8 :=
  let (W, P, flags) := resolve SI W P
  literalText fmt SI ++
    match convert lib SI arg P flags mem with
    | some f => fieldBytes SI W f (f.texts SI mem)
    | none => errorText

/-! ### Strings -/

/-- The search stops where it stopped, if it reads the same bytes. -/
lemma nulIndex_congr {mem mem' : Mem} {n a a' : ℕ}
    (h : slice mem' a' (min n (nulIndex mem n a + 1)) =
      slice mem a (min n (nulIndex mem n a + 1))) :
    nulIndex mem' n a' = nulIndex mem n a := by
  induction n generalizing a a' with
  | zero => rfl
  | succ n ih =>
      rw [Nat.succ_min_succ, slice_succ, slice_succ] at h
      obtain ⟨hhead, htail⟩ := List.cons.inj h
      rw [nulIndex, nulIndex, hhead]
      by_cases h0 : mem a = 0
      · rw [if_pos h0, if_pos h0]
      · rw [nulIndex, if_neg h0] at htail
        rw [if_neg h0, if_neg h0, ih htail]

lemma nulIndex_le (mem : Mem) (n a : ℕ) : nulIndex mem n a ≤ n := by
  induction n generalizing a with
  | zero => exact le_rfl
  | succ n ih =>
      rw [nulIndex]
      split_ifs
      · exact Nat.zero_le _
      · exact Nat.succ_le_succ (ih (a + 1))

/-- A search that stops before its limit has found a NUL. -/
lemma mem_nulIndex {mem : Mem} {n a : ℕ} (h : nulIndex mem n a < n) :
    mem (a + nulIndex mem n a) = 0 := by
  induction n generalizing a with
  | zero => exact absurd h (Nat.not_lt_zero _)
  | succ n ih =>
      rw [nulIndex] at h ⊢
      by_cases h0 : mem a = 0
      · rw [if_pos h0, Nat.add_zero]
        exact h0
      · rw [if_neg h0] at h ⊢
        have hrest := ih (Nat.lt_of_succ_lt_succ h)
        rwa [Nat.add_assoc, Nat.add_comm 1] at hrest

/-- With any other limit, it stops at the same NUL or at that limit. -/
lemma nulIndex_eq_min {mem : Mem} {n a : ℕ} (h : nulIndex mem n a < n) (k : ℕ) :
    nulIndex mem k a = min k (nulIndex mem n a) := by
  induction n generalizing a k with
  | zero => exact absurd h (Nat.not_lt_zero _)
  | succ n ih =>
      cases k with
      | zero => exact (Nat.zero_min _).symm
      | succ k =>
          rw [nulIndex] at h
          rw [nulIndex, nulIndex]
          by_cases h0 : mem a = 0
          · rw [if_pos h0, if_pos h0, Nat.min_zero]
          · rw [if_neg h0] at h
            rw [if_neg h0, if_neg h0, ih (Nat.lt_of_succ_lt_succ h), Nat.succ_min_succ]

/-- The search stops at the first NUL, or at the limit. -/
lemma nulIndex_eq {mem : Mem} {n a k : ℕ} (hk : k ≤ n) (hne : ∀ i < k, mem (a + i) ≠ 0)
    (hnul : k < n → mem (a + k) = 0) : nulIndex mem n a = k := by
  induction n generalizing a k with
  | zero => exact (Nat.le_zero.mp hk).symm
  | succ n ih =>
      rw [nulIndex]
      cases k with
      | zero => exact if_pos (hnul n.succ_pos)
      | succ k =>
          have h0 : mem a ≠ 0 := hne 0 k.succ_pos
          rw [if_neg h0, ih (Nat.le_of_succ_le_succ hk)]
          · intro i hi
            rw [Nat.add_assoc, Nat.add_comm 1]
            exact hne (i + 1) (Nat.succ_lt_succ hi)
          · intro hlt
            rw [Nat.add_assoc, Nat.add_comm 1]
            exact hnul (Nat.succ_lt_succ hlt)

/-- Characters that end in the array with a '\0', or at the limit, are found there. -/
lemma nulIndex_of_slice {mem : Mem} {n a : ℕ} {text : List UInt8} (hnul : 0 ∉ text)
    (hlen : text.length ≤ n) (hslice : slice mem a text.length = text)
    (hend : mem (a + text.length) = 0) :
    nulIndex mem n a = text.length := by
  refine nulIndex_eq hlen (fun i hi => ?_) fun _ => hend
  have hget := getElem?_slice mem a hi
  rw [hslice] at hget
  intro h0
  rw [h0] at hget
  exact hnul (List.mem_of_getElem? hget)

lemma wnulIndex_congr {mem mem' : Mem} {n a a' : ℕ}
    (h : slice mem' a' (sizeofWchar * min n (wnulIndex mem n a + 1)) =
      slice mem a (sizeofWchar * min n (wnulIndex mem n a + 1))) :
    wnulIndex mem' n a' = wnulIndex mem n a := by
  induction n generalizing a a' with
  | zero => rfl
  | succ n ih =>
      rw [Nat.succ_min_succ, Nat.mul_succ, Nat.add_comm, slice_add, slice_add] at h
      obtain ⟨hhead, htail⟩ := List.append_inj h (by simp)
      rw [wnulIndex, wnulIndex, wcharAt, wcharAt, hhead]
      by_cases h0 : leValue (slice mem a sizeofWchar) = 0
      · rw [if_pos h0, if_pos h0]
      · rw [wnulIndex, wcharAt, if_neg h0] at htail
        rw [if_neg h0, if_neg h0, ih htail]

lemma wcharAt_wnulIndex {mem : Mem} {n a : ℕ} (h : wnulIndex mem n a < n) :
    wcharAt mem (a + sizeofWchar * wnulIndex mem n a) = 0 := by
  induction n generalizing a with
  | zero => exact absurd h (Nat.not_lt_zero _)
  | succ n ih =>
      rw [wnulIndex] at h ⊢
      by_cases h0 : wcharAt mem a = 0
      · rw [if_pos h0]
        exact h0
      · rw [if_neg h0] at h ⊢
        have hrest := ih (Nat.lt_of_succ_lt_succ h)
        rwa [Nat.add_assoc, Nat.add_comm sizeofWchar, ← Nat.mul_succ] at hrest

lemma wnulIndex_le (mem : Mem) (n a : ℕ) : wnulIndex mem n a ≤ n := by
  induction n generalizing a with
  | zero => exact le_rfl
  | succ n ih =>
      rw [wnulIndex]
      split_ifs
      · exact Nat.zero_le _
      · exact Nat.succ_le_succ (ih _)

/-- A wide string whose bytes are the same is the same. -/
lemma wideString_congr {mem mem' : Mem} {a a' : ℕ}
    (h : slice mem' a' (sizeofWchar * min (2 ^ 64) (wcslen mem a + 1)) =
      slice mem a (sizeofWchar * min (2 ^ 64) (wcslen mem a + 1))) :
    wideString mem' a' = wideString mem a := by
  have hlen : wcslen mem' a' = wcslen mem a := wnulIndex_congr h
  have hle : wcslen mem a ≤ 2 ^ 64 := wnulIndex_le mem _ a
  rw [wideString, wideString, hlen]
  refine List.map_congr_left fun i hi => ?_
  have hi := List.mem_range.mp hi
  have hin : sizeofWchar * i + sizeofWchar ≤ sizeofWchar * min (2 ^ 64) (wcslen mem a + 1) := by
    rw [← Nat.mul_succ]
    exact Nat.mul_le_mul_left _ (by omega)
  obtain ⟨k, hk⟩ := Nat.exists_eq_add_of_le hin
  rw [hk, Nat.add_assoc, slice_add, slice_add _ a] at h
  have hrest := (List.append_inj h (by simp)).2
  rw [slice_add, slice_add _ (a + _)] at hrest
  rw [wcharAt, wcharAt, (List.append_inj hrest (by simp)).1]

/-- How far `%s` looks for the end of its string. -/
def stringLimit (P : ℤ) : ℕ := if 0 ≤ P then P.toNat else 2 ^ 64

/-- How many bytes of the string of its argument a specifier reads. -/
def stringLength (SI : SpecInfo) (arg : Arg) (P : ℤ) (mem : Mem) : ℕ :=
  if SI.terminal ≠ 's' ∨ arg.type = .nullptr then 0
  else if SI.flags.longint then
    if arg.type.toWcharPtr then sizeofWchar * min (2 ^ 64) (wcslen mem arg.address + 1) else 0
  else if arg.type.toCharPtr then
    min (stringLimit P) (nulIndex mem (stringLimit P) arg.address + 1)
  else 0

/-- The argument `arg'` in the memory `mem'` is the argument `arg` in the memory `mem`, but for
the place of its string. -/
structure SameText (SI : SpecInfo) (P : ℤ) (arg : Arg) (mem : Mem) (arg' : Arg) (mem' : Mem) :
    Prop where
  type_eq : arg'.type = arg.type
  bytes_eq : SI.terminal ≠ 's' → arg'.bytes = arg.bytes
  string_eq : slice mem' arg'.address (stringLength SI arg P mem) =
    slice mem arg.address (stringLength SI arg P mem)

/-- A string is as long wherever it stands. -/
lemma SameText.stringLength_eq {SI : SpecInfo} {P : ℤ} {arg arg' : Arg} {mem mem' : Mem}
    (h : SameText SI P arg mem arg' mem') :
    stringLength SI arg' P mem' = stringLength SI arg P mem := by
  have hstring := h.string_eq
  rw [stringLength, stringLength, h.type_eq]
  by_cases hs : SI.terminal ≠ 's' ∨ arg.type = .nullptr
  · rw [if_pos hs, if_pos hs]
  rw [if_neg hs, if_neg hs]
  by_cases hl : SI.flags.longint = true
  · rw [if_pos hl, if_pos hl]
    by_cases hw : arg.type.toWcharPtr = true
    · simp only [stringLength, if_neg hs, if_pos hl, if_pos hw] at hstring
      rw [if_pos hw, if_pos hw, wcslen, wnulIndex_congr hstring, wcslen]
    · rw [if_neg hw, if_neg hw]
  · rw [if_neg hl, if_neg hl]
    by_cases hc : arg.type.toCharPtr = true
    · simp only [stringLength, if_neg hs, if_neg hl, if_pos hc] at hstring
      rw [if_pos hc, if_pos hc, nulIndex_congr hstring]
    · rw [if_neg hc, if_neg hc]

/-- The field with its characters read from the memory. -/
def Field.load (mem : Mem) (f : Field) : Field := { f with src := .buf (f.src.read mem f.size) }

lemma Field.texts_load (SI : SpecInfo) (mem mem' : Mem) (f : Field) :
    (f.load mem).texts SI mem' = f.texts SI mem := by
  have hread : (f.load mem).src.read mem' f.size = f.src.read mem f.size := by
    cases f with
    | mk src size =>
        cases src with
        | buf bs => simp [load, CharSrc.read]
        | ptr a => simp [load, CharSrc.read]
  simp only [texts, splitsExp] at hread ⊢
  rw [show (f.load mem).size = f.size from rfl, hread]
  rfl

lemma fieldBytes_load (SI : SpecInfo) (W : ℤ) (mem : Mem) (f : Field)
    (texts : List UInt8 × List UInt8) :
    fieldBytes SI W (f.load mem) texts = fieldBytes SI W f texts := rfl

/-- Off `s`, the characters are in `buf`, and the memory is not looked at. -/
lemma convert_of_ne_s {SI : SpecInfo} (hs : SI.terminal ≠ 's') (lib : CLib) (arg : Arg) (P : ℤ)
    (flags : Flags) (mem mem' : Mem) :
    convert lib SI arg P flags mem' = convert lib SI arg P flags mem := by
  simp only [convert, if_neg hs]

lemma src_convertInteger {SI : SpecInfo} {arg : Arg} {P : ℤ} {flags : Flags} {sign : Char}
    {f : Field} (h : convertInteger SI arg P flags sign = some f) : ∃ bs, f.src = .buf bs := by
  rw [convertInteger] at h
  by_cases hp : SI.terminal = 'p' ∧ arg.type.toVoidPtr = true
  · rw [if_pos hp] at h
    obtain rfl := Option.some.inj h
    exact ⟨_, rfl⟩
  · rw [if_neg hp] at h
    cases ht : arg.type with
    | int t =>
        rw [ht] at h
        obtain ⟨cp, -, hf⟩ := Option.bind_eq_some_iff.mp h
        obtain rfl := Option.some.inj hf
        exact ⟨_, rfl⟩
    | _ => simp [ht] at h

lemma src_convertFloat {lib : CLib} {SI : SpecInfo} {arg : Arg} {P : ℤ} {flags : Flags}
    {sign : Char} {f : Field} (h : convertFloat lib SI arg P flags sign = some f) :
    ∃ bs, f.src = .buf bs := by
  rw [convertFloat] at h
  cases ht : arg.type with
  | flt k =>
      simp only [ht] at h
      cases hc : lib.fpclassify k arg.bytes <;> simp only [hc] at h
      case other => exact absurd h (by simp)
      all_goals
        obtain rfl := Option.some.inj h
        exact ⟨_, rfl⟩
  | _ => simp [ht] at h

lemma src_of_ne_s {SI : SpecInfo} (hs : SI.terminal ≠ 's') {lib : CLib} {arg : Arg} {P : ℤ}
    {flags : Flags} {mem : Mem} {f : Field} (h : convert lib SI arg P flags mem = some f) :
    ∃ bs, f.src = .buf bs := by
  rw [convert, if_neg hs] at h
  split_ifs at h with hc hi hf
  · obtain ⟨cp, -, hf⟩ := Option.bind_eq_some_iff.mp h
    obtain rfl := Option.some.inj hf
    exact ⟨_, rfl⟩
  · exact src_convertInteger h
  · exact src_convertFloat h
  · obtain rfl := Option.some.inj h
    exact ⟨_, rfl⟩

/-! ### The text of one specifier -/

lemma CharSrc.nulIndex_ptr (mem : Mem) (n a : ℕ) :
    (CharSrc.ptr a).nulIndex mem n = ConstexprFmtStr.nulIndex mem n a := rfl

/-- What `%s` finds depends on the bytes it reads. -/
lemma convertString_congr {SI : SpecInfo} {P : ℤ} {arg arg' : Arg} {mem mem' : Mem}
    (hs : SI.terminal = 's') (h : SameText SI P arg mem arg' mem') (lib : CLib) :
    (convertString lib SI arg' P mem').map (fun r => (r.1.read mem' r.2, r.2)) =
      (convertString lib SI arg P mem).map (fun r => (r.1.read mem r.2, r.2)) := by
  have htype := h.type_eq
  have hstring := h.string_eq
  rw [convertString, convertString, htype]
  by_cases hnull : arg.type = .nullptr
  · simp only [hnull, if_true]
    rfl
  rw [if_neg hnull, if_neg hnull]
  have hlen : ¬(SI.terminal ≠ 's' ∨ arg.type = .nullptr) := by simp [hs, hnull]
  by_cases hl : SI.flags.longint = true
  · rw [if_pos hl, if_pos hl]
    by_cases hw : arg.type.toWcharPtr = true
    · simp only [stringLength, if_neg hlen, if_pos hl, if_pos hw] at hstring
      rw [if_pos hw, if_pos hw, wideString_congr hstring]
      dsimp only
      generalize lib.wcsrtombs (wideString mem arg.address) _ = converted
      cases converted <;> rfl
    · rw [if_neg hw, if_neg hw]
      rfl
  · rw [if_neg hl, if_neg hl]
    by_cases hc : arg.type.toCharPtr = true
    · simp only [stringLength, if_neg hlen, if_neg hl, if_pos hc] at hstring
      have hsize := nulIndex_congr hstring
      have hle := nulIndex_le mem (stringLimit P) arg.address
      rw [if_pos hc, if_pos hc]
      have hread : slice mem' arg'.address (nulIndex mem (stringLimit P) arg.address) =
          slice mem arg.address (nulIndex mem (stringLimit P) arg.address) := by
        have htake := congrArg (List.take (nulIndex mem (stringLimit P) arg.address)) hstring
        rwa [take_slice _ _ (by omega), take_slice _ _ (by omega)] at htake
      simp only [Option.bind_eq_bind, Option.bind_some, Option.pure_def, Option.map_some,
        CharSrc.nulIndex_ptr, CharSrc.read]
      rw [show (if 0 ≤ P then P.toNat else 2 ^ 64) = stringLimit P from rfl, hsize, hread]
    · rw [if_neg hc, if_neg hc]
      rfl

/-- The field depends on the argument, and on the memory only through its string. -/
lemma convert_congr {SI : SpecInfo} {P : ℤ} {arg arg' : Arg} {mem mem' : Mem}
    (h : SameText SI P arg mem arg' mem') (lib : CLib) (flags : Flags) :
    (convert lib SI arg' P flags mem').map (Field.load mem') =
      (convert lib SI arg P flags mem).map (Field.load mem) := by
  by_cases hs : SI.terminal = 's'
  · have hc : SI.terminal ≠ 'c' := by
      rw [hs]
      decide
    have hstring := convertString_congr hs h lib
    rw [convert, convert, if_neg hc, if_neg hc, if_pos hs, if_pos hs]
    cases h' : convertString lib SI arg' P mem' with
    | none =>
        rw [h', Option.map_none, eq_comm, Option.map_eq_none_iff] at hstring
        rw [hstring]
        rfl
    | some r' =>
        rw [h', Option.map_some, eq_comm, Option.map_eq_some_iff] at hstring
        obtain ⟨r, hr, hread⟩ := hstring
        rw [Prod.mk.injEq] at hread
        obtain ⟨src', size'⟩ := r'
        obtain ⟨src, size⟩ := r
        obtain ⟨hread, rfl⟩ := hread
        rw [hr]
        simp only [Option.bind_eq_bind, Option.bind_some, Option.pure_def, Option.map_some,
          Field.load]
        rw [show src'.read mem' size = src.read mem size from hread.symm]
  · have harg : arg' = arg := by
      cases arg
      cases arg'
      simp only [Arg.mk.injEq]
      exact ⟨h.type_eq, h.bytes_eq hs⟩
    rw [harg, convert_of_ne_s hs lib arg P flags mem mem']
    cases hf : convert lib SI arg P flags mem with
    | none => rfl
    | some f =>
        obtain ⟨bs, hbs⟩ := src_of_ne_s hs hf
        simp only [Option.map_some, Field.load, hbs, CharSrc.read]

/-- The text depends on the argument, and on the memory only through its string. -/
lemma emitted_congr {SI : SpecInfo} {W P : ℤ} {arg arg' : Arg} {mem mem' : Mem}
    (h : SameText SI (resolve SI W P).2.1 arg mem arg' mem') (lib : CLib) (fmt : List Char) :
    emitted lib fmt SI arg' W P mem' = emitted lib fmt SI arg W P mem := by
  have hconv := convert_congr h lib (resolve SI W P).2.2
  rw [emitted, emitted]
  cases h' : convert lib SI arg' (resolve SI W P).2.1 (resolve SI W P).2.2 mem' with
  | none =>
      rw [h', Option.map_none, eq_comm, Option.map_eq_none_iff] at hconv
      simp only [h', hconv]
  | some f' =>
      rw [h', Option.map_some, eq_comm, Option.map_eq_some_iff] at hconv
      obtain ⟨f, hf, hload⟩ := hconv
      simp only [h', hf]
      rw [← fieldBytes_load SI _ mem f, ← Field.texts_load SI mem mem f, hload,
        Field.texts_load SI mem' mem f', fieldBytes_load]

/-- The characters of a field are in `buf`, or they are the string of the argument. -/
lemma src_convert {lib : CLib} {SI : SpecInfo} {arg : Arg} {P : ℤ} {flags : Flags} {mem : Mem}
    {f : Field} (h : convert lib SI arg P flags mem = some f) :
    (∃ bs, f.src = .buf bs) ∨
      f.src = .ptr arg.address ∧ f.size ≤ stringLength SI arg P mem := by
  by_cases hs : SI.terminal = 's'
  · have hc : SI.terminal ≠ 'c' := by
      rw [hs]
      decide
    rw [convert, if_neg hc, if_pos hs, convertString] at h
    by_cases hnull : arg.type = .nullptr
    · rw [if_pos hnull] at h
      obtain rfl := Option.some.inj h
      exact .inl ⟨_, rfl⟩
    rw [if_neg hnull] at h
    by_cases hl : SI.flags.longint = true
    · rw [if_pos hl] at h
      by_cases hw : arg.type.toWcharPtr = true
      · rw [if_pos hw] at h
        dsimp only at h
        generalize lib.wcsrtombs (wideString mem arg.address) _ = converted at h
        cases converted with
        | none => exact absurd h (by simp)
        | some bs =>
            obtain rfl := Option.some.inj h
            exact .inl ⟨_, rfl⟩
      · rw [if_neg hw] at h
        exact absurd h (by simp)
    · rw [if_neg hl] at h
      by_cases hc : arg.type.toCharPtr = true
      · rw [if_pos hc] at h
        obtain rfl := Option.some.inj h
        have hlen : ¬(SI.terminal ≠ 's' ∨ arg.type = .nullptr) := by simp [hs, hnull]
        have hle := nulIndex_le mem (stringLimit P) arg.address
        refine .inr ⟨rfl, ?_⟩
        rw [stringLength, if_neg hlen, if_neg hl, if_pos hc]
        exact le_min hle (Nat.le_succ _)
      · rw [if_neg hc] at h
        exact absurd h (by simp)
  · exact .inl (src_of_ne_s hs h)

/-- The bytes of the string of an argument, in a memory that has the same there. -/
lemma SameText.of_frame {SI : SpecInfo} {P : ℤ} {arg : Arg} {mem mem' : Mem}
    (h : ∀ i, arg.address ≤ i → i < arg.address + stringLength SI arg P mem → mem' i = mem i) :
    SameText SI P arg mem arg mem' :=
  ⟨rfl, fun _ => rfl, slice_congr h⟩

/-- One specifier is printed as one text, if its string is not in the free part of the buffer. -/
lemma converterSingle_eq (lib : CLib) (fmt : List Char) {SI : SpecInfo} (hn : SI.terminal ≠ 'n')
    (arg : Arg) (W P : ℤ) {out : OutbufArg}
    (hfree : ∀ i, arg.address ≤ i →
      i < arg.address + stringLength SI arg (resolve SI W P).2.1 out.mem → ¬out.Free i) :
    converterSingle lib fmt SI arg W P out =
      out.write (emitted lib fmt SI arg W P out.mem) := by
  have hsame : ∀ bs, SameText SI (resolve SI W P).2.1 arg out.mem arg (out.write bs).mem :=
    fun bs => .of_frame fun i hi hi' => OutbufArg.mem_write_of_not_free (hfree i hi hi') bs
  rw [← emitted_congr (hsame (literalText fmt SI)) lib fmt]
  simp only [converterSingle, if_neg hn, emitted, ← OutbufArg.write_append]
  cases hf : convert lib SI arg (resolve SI W P).2.1 (resolve SI W P).2.2
      (out.write (literalText fmt SI)).mem with
  | none => rfl
  | some f =>
      refine writeField_eq fun bs => ?_
      rcases src_convert hf with ⟨buf, hsrc⟩ | ⟨hsrc, hsize⟩
      · simp only [Field.texts, hsrc, CharSrc.read]
      · -- both memories have the string as it was at the start
        have hstring := (hsame (literalText fmt SI)).stringLength_eq
        have hread : slice ((out.write (literalText fmt SI)).write bs).mem arg.address f.size =
            slice (out.write (literalText fmt SI)).mem arg.address f.size := by
          refine slice_congr fun i hi hi' => ?_
          have hni := hfree i hi (by omega)
          rw [OutbufArg.mem_write_of_not_free (fun h => hni (OutbufArg.free_of_free_write h))]
        simp only [Field.texts, hsrc, CharSrc.read, hread]

end ConstexprFmtStr
