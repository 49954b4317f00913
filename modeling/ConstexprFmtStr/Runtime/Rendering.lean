import Mathlib.Tactic
import ConstexprFmtStr.Runtime.Timestamp

/-!
What `format_timestamp` returns.

* `emitted_string`, `emitted_fraction`: the text of a string and of a fraction, and
  `printParts_eq`, of all parts.
* `Rendered`: the texts that a pattern stands for at a time.
* `rendersPattern_iff`: exactly the patterns with a specifier are rendered, off strings whose
  length is negative as an `int`.
-/

namespace ConstexprFmtStr

open Slice Word Search Numeral TimestampFormatter

/-! ### Strings -/

/-- The specifier `%s` at the position `b`, with no text before it. -/
def strSpec (b : ℕ) : SpecInfo := { begin_ := b, end_ := b, terminal := 's' }

/-- The specifier `%0ku`. -/
def fracSpec (b k : ℕ) : SpecInfo :=
  { begin_ := b, end_ := b, flags := { zeropad := true }, width := k, terminal := 'u' }

/-- The blanks before a string whose length is negative as an `int`. -/
def stray (s : List UInt8) : List UInt8 :=
  List.replicate (-wrapS 32 s.length).toNat ' '.toUInt8

lemma literalText_same (fmt : List Char) {SI : SpecInfo} (h : SI.begin_ = SI.end_) :
    literalText fmt SI = [] := by
  rw [literalText, h, sub_self]
  rfl

lemma address_strArg {a : ℕ} (ha : a < 2 ^ 64) : (strArg a).address = a := by
  have htype : (strArg a).type ≠ .nullptr := by simp [strArg]
  rw [Arg.address, if_neg htype]
  exact leValue_leBytes (by simpa using ha)

/-- The text of a string that stands in the memory. -/
structure StringIs (mem : Mem) (a : ℕ) (s : List UInt8) : Prop where
  address_lt : a < 2 ^ 64
  nul_notMem : 0 ∉ s
  length_le : s.length ≤ 2 ^ 64
  slice_eq : slice mem a s.length = s
  end_eq : mem (a + s.length) = 0

variable {clib : CLib} {mem : Mem} {a : ℕ} {s : List UInt8}

lemma StringIs.nulIndex_eq (h : StringIs mem a s) : nulIndex mem (2 ^ 64) a = s.length :=
  nulIndex_of_slice h.nul_notMem h.length_le h.slice_eq h.end_eq

lemma emitted_string (h : StringIs mem a s) (clib : CLib) (fmt : List Char) (b : ℕ) :
    emitted clib fmt (strSpec b) (strArg a) 0 (-1) mem = stray s ++ s := by
  have hstring : convertString clib (strSpec b) (strArg a) (-1) mem =
      some (.ptr a, s.length) := by
    have hptr : convertString clib (strSpec b) (strArg a) (-1) mem =
        some (.ptr (strArg a).address, nulIndex mem (2 ^ 64) (strArg a).address) := rfl
    rw [hptr, address_strArg h.address_lt, h.nulIndex_eq]
  have hconv : convert clib (strSpec b) (strArg a) (-1) {} mem =
      some { src := .ptr a, size := s.length, P := -1, flags := {}, sign := nul } := by
    have hs : (strSpec b).terminal = 's' := rfl
    rw [convert, hs, if_neg (by decide), if_pos rfl, hstring]
    rfl
  have hresolve : resolve (strSpec b) 0 (-1) = (0, -1, {}) := rfl
  rw [emitted, hresolve]
  simp only [hconv]
  rw [literalText_same fmt rfl, List.nil_append]
  simp [fieldBytes, Field.texts, Field.splitsExp, CharSrc.read, Field.realsz, strSpec,
    isSignedTerminal, isFloatTerminal, isIntTerminal, h.slice_eq, stray]

/-- What `%0ku` prints: at least `k` digits. -/
def paddedDecimal (k v : ℕ) : List UInt8 :=
  charBytes (List.replicate (k - (shown (digitChar false) 10 v).length) '0' ++
    shown (digitChar false) 10 v)

lemma paddedDecimal_eq {k v : ℕ} (hk : 0 < k) (hv : v < 10 ^ k) :
    paddedDecimal k v = charBytes ((fixed 10 k v).map (digitChar false)) := by
  rw [← zeros_shown (digitChar false) (by norm_num) hk hv]
  rfl

/-- The text of a fraction. -/
lemma emitted_fraction (clib : CLib) (fmt : List Char) (b : ℕ) {k v : ℕ} (hk : 0 < k)
    (hk' : (k : ℤ) < intMax) (hv : v < 2 ^ 32) (mem : Mem) :
    emitted clib fmt (fracSpec b k) (uintArg v) 0 (-1) mem = paddedDecimal k v := by
  let d : IntSpec := { zero := true, width := .static k, conv := 'u', isInt := rfl }
  have hmatches : d.Matches false (fracSpec b k) :=
    { zeropad_eq := rfl
      ladjust_eq := rfl
      sign_eq := rfl
      width_eq := rfl
      prec_eq := rfl
      terminal_eq := rfl
      alt_eq := rfl
      length_eq := rfl }
  have hbounded : d.Bounded := by
    refine ⟨?_, hk', fun n hn => ?_⟩
    · show -2 ^ 31 < (k : ℤ)
      omega
    · exact absurd hn (by simp [IntSpec.precValue, d])
  have harg : (uintArg v).type = .int ⟨4, false⟩ := rfl
  have hvalue : Arg.intValue ⟨4, false⟩ (uintArg v).bytes = v := by
    have hval : leValue (uintArg v).bytes = v := leValue_leBytes (by simpa using hv)
    rw [Arg.intValue, hval]
    rfl
  have hreduced : d.reduced v = v := by
    rw [IntSpec.reduced, if_neg (by simp [IntSpec.isSigned, d])]
    exact congrArg Nat.cast (wrapU_natCast hv)
  have hdigits : d.digitsText v = shown (digitChar false) 10 v := by
    rw [IntSpec.digitsText, hreduced]
    rfl
  have hnumber : d.codeNumber v = shown (digitChar false) 10 v := by
    have hprec : d.resolvedPrec = -1 := rfl
    have hneg : ((-1 : ℤ) - (shown (digitChar false) 10 v).length).toNat = 0 := by omega
    rw [IntSpec.codeNumber, hdigits, hprec, hneg]
    rfl
  have hsign : d.signText v = [] := by
    rw [IntSpec.signText, hreduced, if_neg (by omega)]
    rfl
  have hemit := IntSpec.emitted_eq hmatches hbounded clib fmt harg mem
  rw [hvalue, hnumber, hsign, literalText_same fmt rfl] at hemit
  have hpad : charBytes (d.padded [] (shown (digitChar false) 10 v)) = paddedDecimal k v := by
    have hneg : ¬(k : ℤ) < 0 := by omega
    rw [IntSpec.padded, paddedDecimal]
    simp [d, IntSpec.widthValue, IntSpec.precValue, hneg]
  rw [← hpad]
  exact hemit

/-! ### The array -/

/-- The C string in an array of 100 bytes. -/
def arrayText (mem : Mem) (buffer : ℕ) : List UInt8 := cString (slice mem buffer 100)

/-- The buffer holds what fits of a C string. -/
structure HoldsString (mem : Mem) (buffer n : ℕ) (text : List UInt8) (mem' : Mem) : Prop extends
    Holds mem buffer n text mem' where
  nul_notMem : 0 ∉ text

lemma Holds.arrayText_eq {buffer : ℕ} {text : List UInt8} {mem' : Mem}
    (h : Holds mem buffer 100 text mem') (hnul : 0 ∉ text) :
    arrayText mem' buffer = text.take 99 := by
  have hle : min text.length 99 ≤ 99 := min_le_right _ _
  have hcut : 100 = min text.length 99 + (99 - min text.length 99 + 1) := by omega
  have hcontent := h.content_eq
  have hend := h.nul_eq
  norm_num only at hcontent hend
  rw [arrayText, hcut, slice_add, hcontent, slice_succ, hend]
  exact cString_append_nul (fun hmem => hnul (List.mem_of_mem_take hmem)) _

/-- The places are in the address space, and overlap neither each other nor the array. -/
structure TimestampFormatter.Places.Valid (places : Places) (s1 s2 : List UInt8) : Prop where
  ts1_le : places.ts1 + s1.length + 1 ≤ 2 ^ 64
  ts2_le : places.ts2 + s2.length + 1 ≤ 2 ^ 64
  apart : places.ts1 + s1.length + 1 ≤ places.ts2 ∨ places.ts2 + s2.length + 1 ≤ places.ts1
  ts1_apart : places.ts1 + s1.length + 1 ≤ places.buffer ∨ places.buffer + 100 ≤ places.ts1
  ts2_apart : places.ts2 + s2.length + 1 ≤ places.buffer ∨ places.buffer + 100 ≤ places.ts2

lemma stringIs_writeAt (mem : Mem) {a : ℕ} {s : List UInt8} (hle : a + s.length + 1 ≤ 2 ^ 64)
    (hnul : 0 ∉ s) : StringIs (writeAt mem a (s ++ [0])) a s := by
  have hslice := slice_writeAt_self mem a (s ++ [0])
  rw [List.length_append, List.length_singleton, slice_add] at hslice
  obtain ⟨htext, hend⟩ := List.append_inj hslice (by simp)
  exact
    { address_lt := by omega
      nul_notMem := hnul
      length_le := by omega
      slice_eq := htext
      end_eq := (List.cons.inj hend).1 }

lemma StringIs.writeAt_apart (h : StringIs mem a s) {b : ℕ} {bs : List UInt8}
    (hapart : a + s.length + 1 ≤ b ∨ b + bs.length ≤ a) : StringIs (writeAt mem b bs) a s where
  address_lt := h.address_lt
  nul_notMem := h.nul_notMem
  length_le := h.length_le
  slice_eq := by
    rw [slice_writeAt_of_disjoint (by omega), h.slice_eq]
  end_eq := by
    rw [writeAt_of_disjoint (by omega), h.end_eq]

/-- Both strings stand in the memory. -/
lemma stringIs_put {places : Places} {tf : TimestampFormatter}
    (hvalid : places.Valid tf.preFormattedTs1 tf.preFormattedTs2)
    (hnul1 : 0 ∉ tf.preFormattedTs1) (hnul2 : 0 ∉ tf.preFormattedTs2) (mem : Mem) :
    StringIs (places.put mem tf) places.ts1 tf.preFormattedTs1 ∧
      StringIs (places.put mem tf) places.ts2 tf.preFormattedTs2 := by
  refine ⟨(stringIs_writeAt mem hvalid.ts1_le hnul1).writeAt_apart ?_,
    stringIs_writeAt _ hvalid.ts2_le hnul2⟩
  have hapart := hvalid.apart
  rw [List.length_append, List.length_singleton]
  omega

/-! ### All parts -/

/-- The number of digits of the fraction. -/
def numDigits : AdditionalSpecifier → ℕ
  | .none => 0
  | .qms => 3
  | .qus => 6
  | .qns => 9

/-- What is printed for `extracted_ns`. -/
def fractionText (specifier : AdditionalSpecifier) (extractedNs : ℕ) : List UInt8 :=
  paddedDecimal (numDigits specifier) (extractedNs / 10 ^ (9 - numDigits specifier))

/-- The fraction of `n` nanoseconds. -/
def fraction (specifier : AdditionalSpecifier) (n : ℕ) : List UInt8 :=
  let k := numDigits specifier
  charBytes ((fixed 10 k (n / 10 ^ (9 - k))).map (digitChar false))

/-- Strings with their addresses, as the arguments of `%s` at the position `b`. -/
def strTaken (b : ℕ) (strings : List (ℕ × List UInt8)) : List (Taken Arg) :=
  strings.map fun x => ⟨strSpec b, [], strArg x.1⟩

/-- A string, a fraction of `k` digits, and perhaps more strings. -/
def partsTaken (k v : ℕ) (first : ℕ × List UInt8) (others : List (ℕ × List UInt8)) :
    List (Taken Arg) :=
  strTaken 0 [first] ++ ⟨fracSpec 2 k, [], uintArg v⟩ :: strTaken 6 others

/-- What a string prints. -/
def strText (s : List UInt8) : List UInt8 := stray s ++ s

/-- A string with its address stands in the memory, and not in the array. -/
structure Readable (mem : Mem) (buffer : ℕ) (x : ℕ × List UInt8) : Prop where
  isString : StringIs mem x.1 x.2
  apart : x.1 + x.2.length + 1 ≤ buffer ∨ buffer + 100 ≤ x.1

variable {buffer : ℕ} {strings : List (ℕ × List UInt8)}

lemma takenText_strTaken (clib : CLib) (fmt : List Char) (b : ℕ)
    (h : ∀ x ∈ strings, Readable mem buffer x) :
    takenText clib fmt mem (strTaken b strings) = strings.flatMap fun x => strText x.2 := by
  induction strings with
  | nil => rfl
  | cons x strings ih =>
      have hhead : (⟨strSpec b, [], strArg x.1⟩ : Taken Arg).text clib fmt mem = strText x.2 :=
        emitted_string (h x List.mem_cons_self).isString clib fmt b
      have htail := ih fun y hy => h y (List.mem_cons_of_mem _ hy)
      rw [List.flatMap_cons, ← htail, ← hhead]
      rfl

/-- What the call reads for a string does not lie in the array. -/
lemma apart_of_mem_strTaken {b : ℕ} (h : ∀ x ∈ strings, Readable mem buffer x) {t : Taken Arg}
    (ht : t ∈ strTaken b strings) : ∀ i, t.StringAt mem i → i < buffer ∨ buffer + 100 ≤ i := by
  obtain ⟨x, hx, rfl⟩ := List.mem_map.mp ht
  rintro i ⟨hle, hlt⟩
  have hstring := (h x hx).isString
  have haddr := address_strArg hstring.address_lt
  have hlen : stringLength (strSpec b) (strArg x.1) (-1) mem =
      min (2 ^ 64) (nulIndex mem (2 ^ 64) (strArg x.1).address + 1) := rfl
  have hlt' : i < (strArg x.1).address + stringLength (strSpec b) (strArg x.1) (-1) mem := hlt
  have hle' : (strArg x.1).address ≤ i := hle
  rw [hlen, haddr, hstring.nulIndex_eq] at hlt'
  rw [haddr] at hle'
  have hapart := (h x hx).apart
  omega

lemma ne_n_of_mem_strTaken {b : ℕ} {t : Taken Arg} (ht : t ∈ strTaken b strings) :
    t.SI.terminal ≠ 'n' := by
  obtain ⟨x, -, rfl⟩ := List.mem_map.mp ht
  show 's' ≠ 'n'
  decide

lemma nul_notMem_strText (h : 0 ∉ s) : 0 ∉ strText s := by
  rw [strText, List.mem_append]
  rintro (hmem | hmem)
  · exact absurd (List.eq_of_mem_replicate hmem) (by decide)
  · exact h hmem

lemma nul_notMem_paddedDecimal (k v : ℕ) : 0 ∉ paddedDecimal k v := by
  intro hmem
  obtain ⟨c, hc, hzero⟩ := List.mem_map.mp hmem
  have hne : ∀ i < 10, (digitChar false i).toUInt8 ≠ 0 := by decide
  rcases List.mem_append.mp hc with hc | hc
  · rw [List.eq_of_mem_replicate hc] at hzero
    exact absurd hzero (by decide)
  · obtain ⟨i, hi, rfl⟩ := mem_shown (by norm_num) hc
    exact hne i hi hzero

section

variable {k v : ℕ} {first : ℕ × List UInt8} {others : List (ℕ × List UInt8)} {t : Taken Arg}

lemma mem_partsTaken (ht : t ∈ partsTaken k v first others) :
    t ∈ strTaken 0 [first] ∨ t = ⟨fracSpec 2 k, [], uintArg v⟩ ∨ t ∈ strTaken 6 others := by
  rcases List.mem_append.mp ht with ht | ht
  · exact .inl ht
  · exact .inr (List.mem_cons.mp ht)

lemma ne_n_of_mem_partsTaken (ht : t ∈ partsTaken k v first others) : t.SI.terminal ≠ 'n' := by
  rcases mem_partsTaken ht with ht | rfl | ht
  · exact ne_n_of_mem_strTaken ht
  · show 'u' ≠ 'n'
    decide
  · exact ne_n_of_mem_strTaken ht

variable (hfirst : ∀ x ∈ [first], Readable mem buffer x)
  (hothers : ∀ x ∈ others, Readable mem buffer x)

include hfirst hothers

/-- The strings do not lie in the array, and the fraction reads none. -/
lemma apart_of_mem_partsTaken (ht : t ∈ partsTaken k v first others) :
    ∀ i, t.StringAt mem i → i < buffer ∨ buffer + 100 ≤ i := by
  rcases mem_partsTaken ht with ht | rfl | ht
  · exact apart_of_mem_strTaken hfirst ht
  · rintro i ⟨hle, hlt⟩
    exact absurd hlt (not_lt.mpr hle)
  · exact apart_of_mem_strTaken hothers ht

/-- The array holds the text of a string, of a fraction, and perhaps of more strings. -/
lemma print_holds {format : String} {args : List Arg} {rt : List Char} {last : SpecInfo}
    (hd : dealt (format.toList ++ [nul]) args = some (rt, partsTaken k v first others, last))
    (hlast : last.begin_ = last.end_) (hk : 0 < k) (hk' : (k : ℤ) < intMax) (hv : v < 2 ^ 32)
    (clib : CLib) :
    ∃ mem', (cfmtStr clib mem buffer 100 (format.toList ++ [nul]) args).map (fun r => r.2.mem) =
        some mem' ∧
      HoldsString mem buffer 100 (strText first.2 ++ paddedDecimal k v ++
        others.flatMap fun x => strText x.2) mem' := by
  have htext : dealtText clib mem (rt, partsTaken k v first others, last) =
      strText first.2 ++ paddedDecimal k v ++
        others.flatMap fun x => strText x.2 := by
    have hfrac : (⟨fracSpec 2 k, [], uintArg v⟩ : Taken Arg).text clib rt mem =
        paddedDecimal k v :=
      emitted_fraction clib rt 2 hk hk' hv mem
    have hstr := takenText_strTaken clib rt 0 hfirst
    have hstrs := takenText_strTaken clib rt 6 hothers
    rw [takenText] at hstr hstrs
    rw [dealtText, takenText, partsTaken, List.flatMap_append, List.flatMap_cons, hstr, hstrs,
      hfrac, literalText_same rt hlast, List.append_nil, List.flatMap_singleton,
      List.append_assoc]
  rw [cfmtStr_eq hd (fun t ht => ne_n_of_mem_partsTaken ht)
    (fun t ht => apart_of_mem_partsTaken hfirst hothers ht), htext]
  refine ⟨_, rfl, ⟨OutbufArg.holds_done mem buffer 100 _ (by norm_num), ?_⟩⟩
  rw [List.mem_append, List.mem_append, List.mem_flatMap]
  rintro ((hmem | hmem) | ⟨x, hx, hmem⟩)
  · have hstring := (hfirst first List.mem_cons_self).isString
    exact nul_notMem_strText hstring.nul_notMem hmem
  · exact nul_notMem_paddedDecimal k v hmem
  · exact nul_notMem_strText (hothers x hx).isString.nul_notMem hmem

end

/-- The texts of an object stand in the memory at their places, apart from the array. -/
structure Placed (places : Places) (mem : Mem) (tf : TimestampFormatter) : Prop where
  ts1 : Readable mem places.buffer (places.ts1, tf.preFormattedTs1)
  ts2 : Readable mem places.buffer (places.ts2, tf.preFormattedTs2)
  ts2_nil : tf.formatPart2 = [] → tf.preFormattedTs2 = []

/-- A call puts its texts there. -/
lemma placed_put {places : Places} {tf : TimestampFormatter}
    (hvalid : places.Valid tf.preFormattedTs1 tf.preFormattedTs2)
    (hnul : 0 ∉ tf.preFormattedTs1 ∧ 0 ∉ tf.preFormattedTs2)
    (hnil : tf.formatPart2 = [] → tf.preFormattedTs2 = []) (mem : Mem) :
    Placed places (places.put mem tf) tf := by
  obtain ⟨h1, h2⟩ := stringIs_put hvalid hnul.1 hnul.2 mem
  exact ⟨⟨h1, hvalid.ts1_apart⟩, ⟨h2, hvalid.ts2_apart⟩, hnil⟩

/-- The branch of a specifier, with its two formats. -/
lemma printBranch_holds {places : Places} {mem : Mem} {tf : TimestampFormatter}
    (h : Placed places mem tf) {k v : ℕ} {one two : String} {last1 last2 : SpecInfo}
    (hone : dealt (one.toList ++ [nul]) [strArg places.ts1, uintArg v] =
      some (one.toList ++ [nul], partsTaken k v (places.ts1, tf.preFormattedTs1) [], last1))
    (htwo : dealt (two.toList ++ [nul]) [strArg places.ts1, uintArg v, strArg places.ts2] =
      some (two.toList ++ [nul], partsTaken k v (places.ts1, tf.preFormattedTs1)
        [(places.ts2, tf.preFormattedTs2)], last2))
    (hlast1 : last1.begin_ = last1.end_) (hlast2 : last2.begin_ = last2.end_) (hk : 0 < k)
    (hk' : (k : ℤ) < intMax) (hv : v < 2 ^ 32) (clib : CLib) :
    ∃ mem',
      (if tf.formatPart2 = [] then
        (cfmtStr clib mem places.buffer 100 (one.toList ++ [nul])
          [strArg places.ts1, uintArg v]).map fun r => r.2.mem
      else
        (cfmtStr clib mem places.buffer 100 (two.toList ++ [nul])
          [strArg places.ts1, uintArg v, strArg places.ts2]).map fun r => r.2.mem) =
        some mem' ∧
      HoldsString mem places.buffer 100 (strText tf.preFormattedTs1 ++ paddedDecimal k v ++
        strText tf.preFormattedTs2) mem' := by
  have hfirst := List.forall_mem_singleton.mpr h.ts1
  by_cases hpart : tf.formatPart2 = []
  · have hempty : strText tf.preFormattedTs2 = [] := by
      rw [h.ts2_nil hpart]
      rfl
    rw [if_pos hpart, hempty]
    exact print_holds hfirst (List.forall_mem_nil _) hone hlast1 hk hk' hv clib
  · have hprint := print_holds hfirst (List.forall_mem_singleton.mpr h.ts2) htwo hlast2 hk hk' hv
      clib
    rw [List.flatMap_singleton] at hprint
    rw [if_neg hpart]
    exact hprint

/-- What `format_timestamp` prints, once its strings stand in the memory. -/
lemma printParts_holds {places : Places} {mem : Mem} {tf : TimestampFormatter}
    (h : Placed places mem tf) (hspec : tf.additionalFormatSpecifier ≠ .none) {n : ℕ}
    (hn : n < 2 ^ 32) (clib : CLib) :
    ∃ mem', printParts clib places mem tf n = some mem' ∧
      HoldsString mem places.buffer 100 (strText tf.preFormattedTs1 ++
        fractionText tf.additionalFormatSpecifier n ++ strText tf.preFormattedTs2) mem' := by
  have hlt (k : ℕ) : n / 10 ^ (9 - k) < 2 ^ 32 := (Nat.div_le_self _ _).trans_lt hn
  rw [printParts]
  cases htf : tf.additionalFormatSpecifier with
  | none => exact absurd htf hspec
  | qms => exact printBranch_holds h rfl rfl rfl rfl (by decide) (by decide) (hlt 3) clib
  | qus => exact printBranch_holds h rfl rfl rfl rfl (by decide) (by decide) (hlt 6) clib
  | qns =>
      have hfrac : fractionText .qns n = paddedDecimal 9 n := by
        simp only [fractionText, numDigits, Nat.sub_self, pow_zero, Nat.div_one]
      rw [hfrac]
      exact printBranch_holds h rfl rfl rfl rfl (by norm_num) (by decide) hn clib

/-- The C string in the array. -/
lemma printParts_eq {places : Places} {mem : Mem} {tf : TimestampFormatter}
    (h : Placed places mem tf) (hspec : tf.additionalFormatSpecifier ≠ .none) {n : ℕ}
    (hn : n < 2 ^ 32) (clib : CLib) :
    ∃ mem', printParts clib places mem tf n = some mem' ∧
      arrayText mem' places.buffer =
        (strText tf.preFormattedTs1 ++ fractionText tf.additionalFormatSpecifier n ++
          strText tf.preFormattedTs2).take 99 := by
  obtain ⟨mem', hprint, hholds⟩ := printParts_holds h hspec hn clib
  exact ⟨mem', hprint, hholds.arrayText_eq hholds.nul_notMem⟩

lemma numDigits_pos {specifier : AdditionalSpecifier} (h : specifier ≠ .none) :
    0 < numDigits specifier ∧ numDigits specifier ≤ 9 := by
  cases specifier with
  | none => exact absurd rfl h
  | _ => exact ⟨by decide, by decide⟩

/-- The nanoseconds of one second have so many digits. -/
lemma div_pow_lt {n k : ℕ} (hn : n < 10 ^ 9) (hk : k ≤ 9) : n / 10 ^ (9 - k) < 10 ^ k := by
  have hmul : 10 ^ (9 - k) * 10 ^ k = 10 ^ 9 := by
    rw [← pow_add, Nat.sub_add_cancel hk]
  exact Nat.div_lt_of_lt_mul (by omega)

lemma fractionText_eq {specifier : AdditionalSpecifier} (h : specifier ≠ .none) {n : ℕ}
    (hn : n < 10 ^ 9) : fractionText specifier n = fraction specifier n := by
  obtain ⟨hpos, hle⟩ := numDigits_pos h
  rw [fractionText, paddedDecimal_eq hpos (div_pow_lt hn hle)]
  rfl

/-! ### Stray blanks -/

/-- Letters in front of a text do not change it exactly if it has no others. -/
lemma take_replicate_append {α : Type*} {c : α} {p : ℕ} (hp : 0 < p) (u : List α) :
    (List.replicate p c ++ u).take u.length = u ↔ ∀ b ∈ u, b = c := by
  obtain ⟨p, rfl⟩ : ∃ m, p = m + 1 := ⟨p - 1, by omega⟩
  constructor
  · intro h
    induction u with
    | nil => exact fun b hb => absurd hb List.not_mem_nil
    | cons x u ih =>
        rw [List.length_cons, List.replicate_succ, List.cons_append, List.take_succ_cons] at h
        obtain ⟨rfl, htail⟩ := List.cons.inj h
        -- the first letter stands behind the others as well
        have hmove : List.replicate p c ++ c :: u = List.replicate (p + 1) c ++ u := by
          rw [List.replicate_succ', List.append_assoc, List.singleton_append]
        rw [hmove] at htail
        intro b hb
        rcases List.mem_cons.mp hb with rfl | hb
        · rfl
        · exact ih htail b hb
  · intro h
    have hu : u = List.replicate u.length c := List.eq_replicate_iff.mpr ⟨rfl, h⟩
    rw [hu, List.replicate_append_replicate, List.length_replicate, List.take_replicate]
    congr 1
    omega

/-- The first `n` bytes of a string are printed as they are: its length is not negative as an
`int`, or they are blanks. -/
def Plain (n : ℕ) (s : List UInt8) : Prop :=
  0 ≤ wrapS 32 s.length ∨ ∀ b ∈ s.take n, b = ' '.toUInt8

lemma stray_eq_nil (h : 0 ≤ wrapS 32 s.length) : stray s = [] := by
  rw [stray, Int.toNat_of_nonpos (by omega), List.replicate_zero]

lemma le_length_of_neg (h : wrapS 32 s.length < 0) : 2 ^ 31 ≤ s.length := by
  by_contra hlt
  rw [wrapS_of_bounds (by omega) (by omega)] at h
  omega

lemma take_strText {n : ℕ} (hn : n ≤ 2 ^ 31) : (strText s).take n = s.take n ↔ Plain n s := by
  rw [Plain, strText]
  rcases lt_or_ge (wrapS 32 s.length) 0 with hneg | hpos
  · have hlen := le_length_of_neg hneg
    have hcut : ∀ l : List UInt8, (l ++ s).take n = (l ++ s.take n).take (s.take n).length := by
      intro l
      rw [List.length_take, min_eq_left (by omega), List.take_append, List.take_append,
        List.take_take, min_eq_left (Nat.sub_le _ _)]
    rw [hcut, stray, take_replicate_append (by omega)]
    exact ⟨.inr, fun h => h.resolve_left (not_le.mpr hneg)⟩
  · rw [stray_eq_nil hpos, List.nil_append]
    exact iff_of_true rfl (.inl hpos)

/-- All parts are printed as they are exactly if each is. -/
lemma take_parts (s1 frac s2 : List UInt8) :
    (strText s1 ++ frac ++ strText s2).take 99 = (s1 ++ frac ++ s2).take 99 ↔
      Plain 99 s1 ∧ Plain (99 - (s1 ++ frac).length) s2 := by
  rcases lt_or_ge (wrapS 32 s1.length) 0 with hneg | hpos
  · -- the first string fills the array
    have hlen := le_length_of_neg hneg
    have hfull : 99 ≤ s1.length := by omega
    have hfull' : 99 ≤ (strText s1).length := by
      rw [strText, List.length_append]
      omega
    have hzero : 99 - (s1 ++ frac).length = 0 := by
      rw [List.length_append]
      omega
    have hplain : Plain 0 s2 := .inr fun b hb => absurd hb List.not_mem_nil
    rw [List.append_assoc, List.append_assoc, List.take_append_of_le_length hfull,
      List.take_append_of_le_length hfull', take_strText (by norm_num), hzero]
    exact ⟨fun h => ⟨h, hplain⟩, fun h => h.1⟩
  · have hplain : Plain 99 s1 := .inl hpos
    have hsame : strText s1 = s1 := by
      rw [strText, stray_eq_nil hpos, List.nil_append]
    rw [hsame]
    generalize s1 ++ frac = front
    rw [List.take_append, List.take_append, List.append_cancel_left_eq, take_strText (by omega)]
    exact ⟨fun h => ⟨hplain, h⟩, fun h => h.2⟩

/-! ### Patterns -/

/-- The texts of a pattern at `ns` nanoseconds: of the part before the specifier, of the fraction,
and of the part after it; or of the whole pattern. -/
inductive Rendered (lib : TimeLib) (timezoneType : Timezone) (pattern : List UInt8) (ns : ℕ) :
    List UInt8 → List UInt8 → List UInt8 → Prop
  | parts {specifier : AdditionalSpecifier} {before after : List UInt8}
      (hspec : specifier ≠ .none)
      (hpattern : pattern = before ++ specifierName specifier ++ after) :
      Rendered lib timezoneType pattern ns
        (lib.strftime (cString before) (timeInfo lib timezoneType (ns / 10 ^ 9 : ℕ)))
        (fraction specifier (ns % 10 ^ 9))
        (lib.strftime (cString after) (timeInfo lib timezoneType (ns / 10 ^ 9 : ℕ)))
  | whole (hnone : numSpecifiers pattern = 0) :
      Rendered lib timezoneType pattern ns
        (lib.strftime (cString pattern) (timeInfo lib timezoneType (ns / 10 ^ 9 : ℕ))) [] []

lemma numPlaces_pos {pattern : List UInt8} {specifier : AdditionalSpecifier}
    (hspec : specifier ≠ .none) {i : ℕ} (h : At (specifierName specifier) pattern i) :
    0 < numPlaces pattern specifier :=
  Finset.card_pos.mpr ⟨i, (mem_places (unbordered_specifierName hspec).ne_nil).mpr h⟩

lemma numPlaces_le {pattern : List UInt8} {specifier : AdditionalSpecifier}
    (hspec : specifier ≠ .none) : numPlaces pattern specifier ≤ numSpecifiers pattern := by
  rw [numSpecifiers]
  cases specifier with
  | none => exact absurd rfl hspec
  | _ => omega

/-- The only specifier stands at one place only. -/
lemma only_place {pattern : List UInt8} (hone : numSpecifiers pattern = 1)
    {specifier specifier' : AdditionalSpecifier} (hspec : specifier ≠ .none)
    (hspec' : specifier' ≠ .none) {i j : ℕ} (hi : At (specifierName specifier) pattern i)
    (hj : At (specifierName specifier') pattern j) : specifier = specifier' ∧ i = j := by
  have hpos := numPlaces_pos hspec hi
  have hpos' := numPlaces_pos hspec' hj
  obtain rfl : specifier = specifier' := by
    rw [numSpecifiers] at hone
    cases specifier <;> cases specifier' <;> first | rfl | contradiction | omega
  have hne := (unbordered_specifierName hspec).ne_nil
  have hcard : (places (specifierName specifier) pattern).card ≤ 1 :=
    hone ▸ numPlaces_le hspec
  exact ⟨rfl, Finset.card_le_one.mp hcard i ((mem_places hne).mpr hi) j ((mem_places hne).mpr hj)⟩

lemma Searched.sum_eq {pattern : List UInt8} {found : Found}
    (h : Searched pattern [.qns, .qus, .qms] found) :
    numSpecifiers pattern = if found.1 = .none then 0 else 1 := by
  rw [Searched, sum_numPlaces] at h
  split_ifs at h ⊢
  · exact h
  · exact h.1

/-- The strings of the object are the texts of the pattern, and no others are. -/
lemma rendered_iff {lib : TimeLib} (h : lib.Lawful) {timezoneType : Timezone}
    {pattern : List UInt8} {found : Found}
    (hfound : Searched pattern [.qns, .qus, .qms] found) (now : ℤ) {ns : ℕ}
    {s1 frac s2 : List UInt8} :
    Rendered lib timezoneType pattern ns s1 frac s2 ↔
      s1 = ((split pattern timezoneType now found).textsAt lib (ns / 10 ^ 9 : ℕ)).preFormattedTs1 ∧
        frac = fraction found.1 (ns % 10 ^ 9) ∧
        s2 =
          ((split pattern timezoneType now found).textsAt lib (ns / 10 ^ 9 : ℕ)).preFormattedTs2 := by
  have hsum := hfound.sum_eq
  by_cases hspec : found.1 = .none
  · rw [if_pos hspec] at hsum
    simp only [textsAt, split, hspec, if_true, h.strftime_cString_nil]
    constructor
    · intro hrendered
      cases hrendered with
      | @parts specifier before after hspec' hpattern =>
          have hat := at_append before (specifierName specifier) after
          rw [← hpattern] at hat
          have hpos := numPlaces_pos hspec' hat
          have hle : numPlaces pattern specifier ≤ numSpecifiers pattern := numPlaces_le hspec'
          omega
      | whole => exact ⟨rfl, rfl, rfl⟩
    · rintro ⟨rfl, rfl, rfl⟩
      exact .whole hsum
  · rw [if_neg hspec] at hsum
    rw [Searched, if_neg hspec] at hfound
    have hat := hfound.2.2
    have hsplit := hat.split
    rw [length_specifierName hspec] at hsplit
    simp only [textsAt, split, if_neg hspec]
    constructor
    · intro hrendered
      cases hrendered with
      | @parts specifier before after hspec' hpattern =>
          have hat' := at_append before (specifierName specifier) after
          rw [← hpattern] at hat'
          obtain ⟨rfl, hbegin⟩ := only_place hsum hspec' hspec hat' hat
          -- the two ways to cut the pattern begin alike
          have hcut : before ++ (specifierName found.1 ++ after) = pattern.take found.2 ++
              (specifierName found.1 ++ pattern.drop (found.2 + specifierLength)) := by
            rw [← List.append_assoc, ← List.append_assoc, ← hpattern, ← hsplit]
          have hlen : before.length = (pattern.take found.2).length := by
            rw [List.length_take, min_eq_left]
            · exact hbegin
            · exact (hat.lt (unbordered_specifierName hspec).ne_nil).le
          obtain ⟨hbefore, hrest⟩ := List.append_inj hcut hlen
          rw [hbefore, List.append_cancel_left hrest]
          exact ⟨rfl, rfl, rfl⟩
      | whole hnone => omega
    · rintro ⟨rfl, rfl, rfl⟩
      exact .parts hspec hsplit

/-- A call returns an array with the texts of the pattern, cut to 99 bytes. -/
def RendersAt (lib : TimeLib) (clib : CLib) (timezoneType : Timezone) (pattern : List UInt8)
    (tf : TimestampFormatter) (ns : ℕ) : Prop :=
  ∃ s1 frac s2, Rendered lib timezoneType pattern ns s1 frac s2 ∧
    ∀ (places : Places) (mem : Mem), places.Valid s1 s2 →
      ∃ tf' mem', formatTimestamp lib clib places mem tf ns = some (tf', mem') ∧
        arrayText mem' places.buffer = (s1 ++ frac ++ s2).take 99

/-- Whenever the object is made, the constructor throws exactly if there are two specifiers, and
if it does not, every call after any others renders the pattern. -/
def RendersPattern (lib : TimeLib) (clib : CLib) (timezoneType : Timezone)
    (pattern : List UInt8) : Prop :=
  ∀ now : ℤ,
    ((∃ e, new lib pattern timezoneType now = some (.error e)) ↔ 2 ≤ numSpecifiers pattern) ∧
    (numSpecifiers pattern < 2 →
      ∃ tf, new lib pattern timezoneType now = some (.ok tf) ∧
        ∀ calls, ∃ tf', formatAll lib clib tf calls = some tf' ∧
          ∀ ns < 2 ^ 63, RendersAt lib clib timezoneType pattern tf' ns)

/-- At every time, the texts are printed as they are. -/
def PlainParts (lib : TimeLib) (timezoneType : Timezone) (pattern : List UInt8) : Prop :=
  ∀ ns < 2 ^ 63, ∀ s1 frac s2, Rendered lib timezoneType pattern ns s1 frac s2 →
    Plain 99 s1 ∧ Plain (99 - (s1 ++ frac).length) s2

/-- **One call**, with a specifier: the texts, each with its stray blanks. -/
lemma formatTimestamp_eq {lib : TimeLib} (h : lib.Lawful) {tf : TimestampFormatter}
    (hspec : tf.additionalFormatSpecifier ≠ .none) (timestamp : ℤ) (ns : ℕ) {places : Places}
    (hvalid : places.Valid (tf.textsAt lib (ns / 10 ^ 9 : ℕ)).preFormattedTs1
      (tf.textsAt lib (ns / 10 ^ 9 : ℕ)).preFormattedTs2) (clib : CLib) (mem : Mem) :
    ∃ tf' mem', formatTimestamp lib clib places mem (tf.textsAt lib timestamp) ns =
        some (tf', mem') ∧
      arrayText mem' places.buffer =
        (strText (tf.textsAt lib (ns / 10 ^ 9 : ℕ)).preFormattedTs1 ++
          fraction tf.additionalFormatSpecifier (ns % 10 ^ 9) ++
          strText (tf.textsAt lib (ns / 10 ^ 9 : ℕ)).preFormattedTs2).take 99 := by
  have hsecs : (ns : ℤ).tdiv 1000000000 = (ns / 10 ^ 9 : ℕ) := rfl
  have hns : wrapU 32 ((ns : ℤ) - (ns / 10 ^ 9 : ℕ) * 1000000000) = ns % 10 ^ 9 := by
    have hrest : (ns : ℤ) - (ns / 10 ^ 9 : ℕ) * 1000000000 = (ns % 10 ^ 9 : ℕ) := by omega
    rw [hrest]
    exact wrapU_natCast (by omega)
  have hnil : tf.formatPart2 = [] →
      (tf.textsAt lib (ns / 10 ^ 9 : ℕ)).preFormattedTs2 = [] := by
    intro hpart
    simp only [textsAt, hpart, h.strftime_cString_nil]
  have hplaced := placed_put hvalid ⟨h.nul_notMem _ _, h.nul_notMem _ _⟩ hnil mem
  have hlt : ns % 10 ^ 9 < 10 ^ 9 := Nat.mod_lt _ (by norm_num)
  obtain ⟨mem', hprint, htext⟩ := printParts_eq hplaced hspec (hlt.trans (by norm_num)) clib
  have hfrac : fractionText (tf.textsAt lib (ns / 10 ^ 9 : ℕ)).additionalFormatSpecifier
      (ns % 10 ^ 9) = fraction tf.additionalFormatSpecifier (ns % 10 ^ 9) :=
    fractionText_eq hspec hlt
  rw [hfrac] at htext
  refine ⟨tf.textsAt lib (ns / 10 ^ 9 : ℕ), mem', ?_, htext⟩
  rw [formatTimestamp_textsAt h, hsecs, hns, hprint]
  rfl

/-- **One call**, without a specifier: the array is as it was. -/
lemma formatTimestamp_none {lib : TimeLib} (h : lib.Lawful) {tf : TimestampFormatter}
    (hspec : tf.additionalFormatSpecifier = .none) (timestamp : ℤ) (ns : ℕ) {places : Places}
    (hvalid : places.Valid (tf.textsAt lib (ns / 10 ^ 9 : ℕ)).preFormattedTs1
      (tf.textsAt lib (ns / 10 ^ 9 : ℕ)).preFormattedTs2) (clib : CLib) (mem : Mem) :
    ∃ tf' mem', formatTimestamp lib clib places mem (tf.textsAt lib timestamp) ns =
        some (tf', mem') ∧ arrayText mem' places.buffer = arrayText mem places.buffer := by
  have hsecs : (ns : ℤ).tdiv 1000000000 = (ns / 10 ^ 9 : ℕ) := rfl
  have hprint : ∀ mem n, printParts clib places mem (tf.textsAt lib (ns / 10 ^ 9 : ℕ)) n =
      some mem := by
    intro mem n
    have hnone : (tf.textsAt lib (ns / 10 ^ 9 : ℕ)).additionalFormatSpecifier = .none := hspec
    rw [printParts, hnone]
  have h1 := hvalid.ts1_apart
  have h2 := hvalid.ts2_apart
  refine ⟨tf.textsAt lib (ns / 10 ^ 9 : ℕ), places.put mem (tf.textsAt lib (ns / 10 ^ 9 : ℕ)),
    ?_, ?_⟩
  · rw [formatTimestamp_textsAt h, hsecs, hprint]
    rfl
  · rw [arrayText, Places.put, slice_writeAt_of_disjoint, slice_writeAt_of_disjoint, arrayText]
    · rw [List.length_append, List.length_singleton]
      omega
    · rw [List.length_append, List.length_singleton]
      omega

/-- There is always room for the strings. -/
lemma exists_valid {s1 s2 : List UInt8} (h1 : s1.length < 2 ^ 62) (h2 : s2.length < 2 ^ 62) :
    ∃ places : Places, places.Valid s1 s2 := by
  refine ⟨{ buffer := 0, ts1 := 100, ts2 := 100 + s1.length + 1 }, ?_⟩
  constructor <;> dsimp only <;> omega

/-- Every text is a text of the C library. -/
lemma Rendered.length_lt {lib : TimeLib} (h : lib.Lawful) {timezoneType : Timezone}
    {pattern : List UInt8} {ns : ℕ} {s1 frac s2 : List UInt8}
    (hr : Rendered lib timezoneType pattern ns s1 frac s2) :
    s1.length < 2 ^ 62 ∧ s2.length < 2 ^ 62 := by
  cases hr with
  | parts => exact ⟨h.length_lt _ _, h.length_lt _ _⟩
  | whole => exact ⟨h.length_lt _ _, by norm_num⟩

/-- **One specifier.** A call renders the pattern exactly if its texts are printed as they are. -/
lemma rendersAt_iff {lib : TimeLib} (h : lib.Lawful) (clib : CLib) {timezoneType : Timezone}
    {pattern : List UInt8} {found : Found}
    (hfound : Searched pattern [.qns, .qus, .qms] found) (hspec : found.1 ≠ .none)
    (now timestamp : ℤ) (ns : ℕ) :
    RendersAt lib clib timezoneType pattern
        ((split pattern timezoneType now found).textsAt lib timestamp) ns ↔
      ∀ s1 frac s2, Rendered lib timezoneType pattern ns s1 frac s2 →
        Plain 99 s1 ∧ Plain (99 - (s1 ++ frac).length) s2 := by
  obtain ⟨tf, htf⟩ : ∃ tf, split pattern timezoneType now found = tf := ⟨_, rfl⟩
  have hiff : ∀ {s1 frac s2}, Rendered lib timezoneType pattern ns s1 frac s2 ↔
      s1 = (tf.textsAt lib (ns / 10 ^ 9 : ℕ)).preFormattedTs1 ∧
        frac = fraction found.1 (ns % 10 ^ 9) ∧
        s2 = (tf.textsAt lib (ns / 10 ^ 9 : ℕ)).preFormattedTs2 := by
    intro s1 frac s2
    rw [rendered_iff h hfound now, htf]
  have hfound' : tf.additionalFormatSpecifier = found.1 := by
    rw [← htf]
    rfl
  rw [htf]
  constructor
  · rintro ⟨s1, frac, s2, hr, hcalls⟩ t1 f t2 hr'
    obtain ⟨hlen1, hlen2⟩ := hr.length_lt h
    obtain ⟨rfl, rfl, rfl⟩ := hiff.mp hr
    obtain ⟨rfl, rfl, rfl⟩ := hiff.mp hr'
    obtain ⟨places, hvalid⟩ := exists_valid hlen1 hlen2
    obtain ⟨tf1, mem1, hcall1, htext1⟩ := hcalls places (fun _ => 0) hvalid
    obtain ⟨tf2, mem2, hcall2, htext2⟩ := formatTimestamp_eq h (hfound' ▸ hspec) timestamp ns
      hvalid clib fun _ => 0
    rw [hcall1] at hcall2
    obtain ⟨-, rfl⟩ := Prod.mk.inj (Option.some.inj hcall2)
    rw [htext1, hfound'] at htext2
    exact (take_parts _ _ _).mp htext2.symm
  · intro hplain
    have hr := hiff.mpr ⟨rfl, rfl, rfl⟩
    refine ⟨_, _, _, hr, fun places mem hvalid => ?_⟩
    obtain ⟨tf', mem', hcall, htext⟩ := formatTimestamp_eq h (hfound' ▸ hspec) timestamp ns
      hvalid clib mem
    refine ⟨tf', mem', hcall, ?_⟩
    rw [htext, hfound']
    exact (take_parts _ _ _).mpr (hplain _ _ _ hr)

/-- **No specifier.** A call leaves the array as it is. -/
lemma not_rendersAt {lib : TimeLib} (h : lib.Lawful) (clib : CLib) {timezoneType : Timezone}
    {pattern : List UInt8} {found : Found}
    (hfound : Searched pattern [.qns, .qus, .qms] found) (hspec : found.1 = .none)
    (now timestamp : ℤ) (ns : ℕ) :
    ¬RendersAt lib clib timezoneType pattern
        ((split pattern timezoneType now found).textsAt lib timestamp) ns := by
  rintro ⟨s1, frac, s2, hr, hcalls⟩
  obtain ⟨hlen1, hlen2⟩ := hr.length_lt h
  obtain ⟨rfl, rfl, rfl⟩ := (rendered_iff h hfound now).mp hr
  obtain ⟨places, hvalid⟩ := exists_valid hlen1 hlen2
  have hnone : (split pattern timezoneType now found).additionalFormatSpecifier = .none := hspec
  -- an array of zeros is not the text, or the text is empty and an array of ones is not
  have hkept : ∀ mem : Mem, arrayText mem places.buffer =
      (((split pattern timezoneType now found).textsAt lib (ns / 10 ^ 9 : ℕ)).preFormattedTs1 ++
        fraction found.1 (ns % 10 ^ 9) ++ ((split pattern timezoneType now found).textsAt lib
          (ns / 10 ^ 9 : ℕ)).preFormattedTs2).take 99 := by
    intro mem
    obtain ⟨tf', mem', hcall, htext⟩ := hcalls places mem hvalid
    obtain ⟨tf2, mem2, hcall2, htext2⟩ := formatTimestamp_none h hnone timestamp ns hvalid clib
      mem
    rw [hcall] at hcall2
    obtain ⟨-, rfl⟩ := Prod.mk.inj (Option.some.inj hcall2)
    rw [← htext2, htext]
  have hzeros : arrayText (fun _ => 0) places.buffer = [] := rfl
  have hones : arrayText (fun _ => 1) places.buffer ≠ [] := by
    rw [arrayText, slice_succ, cString, List.takeWhile_cons_of_pos (by decide)]
    exact List.cons_ne_nil _ _
  exact hones (((hkept _).trans (hkept _).symm).trans hzeros)

/-- **Rendering**, for every pattern. -/
theorem rendersPattern_iff {lib : TimeLib} (h : lib.Lawful) (clib : CLib)
    (timezoneType : Timezone) (pattern : List UInt8) :
    RendersPattern lib clib timezoneType pattern ↔
      2 ≤ numSpecifiers pattern ∨
        numSpecifiers pattern = 1 ∧ PlainParts lib timezoneType pattern := by
  have hnew := fun now => new_eq h pattern timezoneType now
  constructor
  · intro hrenders
    rcases Nat.lt_or_ge (numSpecifiers pattern) 2 with hlt | hge
    · obtain ⟨found, hfound, hmade⟩ := (hnew 0).2 hlt
      obtain ⟨tf, htf, hcalls⟩ := (hrenders 0).2 hlt
      obtain ⟨tf', hall, hat⟩ := hcalls []
      obtain rfl := Option.some.inj hall
      rw [hmade] at htf
      obtain rfl := Except.ok.inj (Option.some.inj htf)
      have hsum := hfound.sum_eq
      by_cases hspec : found.1 = .none
      · exact absurd (hat 0 (by norm_num)) (not_rendersAt h clib hfound hspec 0 0 0)
      · rw [if_neg hspec] at hsum
        refine .inr ⟨hsum, fun ns hns => ?_⟩
        exact (rendersAt_iff h clib hfound hspec 0 0 ns).mp (hat ns hns)
    · exact .inl hge
  · intro hcond now
    constructor
    · constructor
      · rintro ⟨e, he⟩
        by_contra hlt
        obtain ⟨found, -, hmade⟩ := (hnew now).2 (not_le.mp hlt)
        rw [hmade] at he
        exact absurd (Option.some.inj he) nofun
      · exact (hnew now).1
    · intro hlt
      obtain ⟨hone, hplain⟩ := hcond.resolve_left (not_le.mpr hlt)
      obtain ⟨found, hfound, hmade⟩ := (hnew now).2 hlt
      have hspec : found.1 ≠ .none := by
        intro hnone
        have hsum := hfound.sum_eq
        rw [if_pos hnone] at hsum
        omega
      refine ⟨_, hmade, fun calls => ?_⟩
      obtain ⟨timestamp, hall⟩ := formatAll_eq h clib (split pattern timezoneType now found) now
        calls
      refine ⟨_, hall, fun ns hns => ?_⟩
      exact (rendersAt_iff h clib hfound hspec now timestamp ns).mpr (hplain ns hns)

/-! ### A library without conversions -/

/-- A C library whose `strftime` is only asked for ordinary characters. -/
def ordinaryTime : TimeLib where
  Tm := ℤ
  localtime timestamp := timestamp
  gmtime timestamp := timestamp
  strftime format _ := (format.filter (· ≠ 0)).take (2 ^ 62 - 1)

lemma ordinaryTime_lawful : ordinaryTime.Lawful where
  strftime_nil _ := rfl
  strftime_ne_nil format tm hnul hne := by
    have hkeep : format.filter (· ≠ 0) = format := by
      rw [List.filter_eq_self]
      intro b hb
      rw [decide_eq_true_eq]
      rintro rfl
      exact hnul hb
    show (format.filter (· ≠ 0)).take (2 ^ 62 - 1) ≠ []
    rw [hkeep, ne_eq, List.take_eq_nil_iff]
    rintro (h | h)
    · omega
    · exact hne h
  nul_notMem format tm hmem := by
    have hne := (List.mem_filter.mp (List.mem_of_mem_take hmem)).2
    exact absurd hne (by decide)
  length_lt format tm := by
    show ((format.filter (· ≠ 0)).take (2 ^ 62 - 1)).length < 2 ^ 62
    rw [List.length_take]
    omega

lemma length_ordinaryTime (format : List UInt8) (tm : ℤ) :
    (ordinaryTime.strftime (cString format) tm).length ≤ format.length :=
  calc (ordinaryTime.strftime (cString format) tm).length
      ≤ ((cString format).filter (· ≠ 0)).length := List.length_take_le' _ _
    _ ≤ (cString format).length := List.length_filter_le _ _
    _ ≤ format.length := (List.takeWhile_sublist _).length_le

/-- A pattern with milliseconds is rendered. -/
theorem rendersPattern_milliseconds :
    RendersPattern ordinaryTime CLib.ascii .gmtTime (charBytes "at %Qms".toList) := by
  refine (rendersPattern_iff ordinaryTime_lawful CLib.ascii .gmtTime _).mpr
    (.inr ⟨by decide, ?_⟩)
  have hplain : ∀ (n : ℕ) (s : List UInt8), s.length ≤ 7 → Plain n s := by
    intro n s hs
    refine .inl ?_
    rw [wrapS_of_bounds] <;> omega
  intro ns _ s1 frac s2 hr
  generalize hpattern : charBytes "at %Qms".toList = pattern at hr
  have hlen : pattern.length = 7 := by rw [← hpattern]; rfl
  cases hr with
  | @parts specifier before after hspec hcut =>
      rw [hcut, List.length_append, List.length_append] at hlen
      have h1 := length_ordinaryTime before (timeInfo ordinaryTime .gmtTime (ns / 10 ^ 9 : ℕ))
      have h2 := length_ordinaryTime after (timeInfo ordinaryTime .gmtTime (ns / 10 ^ 9 : ℕ))
      exact ⟨hplain _ _ (by omega), hplain _ _ (by omega)⟩
  | whole =>
      have h1 := length_ordinaryTime pattern (timeInfo ordinaryTime .gmtTime (ns / 10 ^ 9 : ℕ))
      exact ⟨hplain _ _ (by omega), hplain _ _ (by simp)⟩

/-- The pattern "at" is not rendered. -/
theorem rendersPattern_whole :
    ¬RendersPattern ordinaryTime CLib.ascii .gmtTime (charBytes "at".toList) := by
  intro hrenders
  have hlt : numSpecifiers (charBytes "at".toList) < 2 := by decide
  have hsum : numSpecifiers (charBytes "at".toList) = 0 := by decide
  obtain ⟨found, hfound, hmade⟩ :=
    (new_eq ordinaryTime_lawful (charBytes "at".toList) .gmtTime 0).2 hlt
  obtain ⟨tf, htf, hcalls⟩ := (hrenders 0).2 hlt
  obtain ⟨tf', hall, hat⟩ := hcalls []
  obtain rfl := Option.some.inj hall
  rw [hmade] at htf
  obtain rfl := Except.ok.inj (Option.some.inj htf)
  have hspec : found.1 = .none := by
    by_contra hne
    have heq := hfound.sum_eq
    rw [hsum, if_neg hne] at heq
    exact absurd heq (by norm_num)
  exact not_rendersAt ordinaryTime_lawful CLib.ascii hfound hspec 0 0 0 (hat 0 (by norm_num))

end ConstexprFmtStr
