import Mathlib.Tactic
import ConstexprFmtStr.Runtime.Cache

/-!
Seconds and fractions of a timestamp (`TimestampFormatter::format_timestamp`).

* `timestampSecs`, `extracted`: what the code computes, by divisions that truncate and a cast of
  the remainder to `uint32_t`.
* `SplitsExactly`: the seconds and the fraction are the floors, and the fraction has all its digits.
* `splitsExactly_iff`: so it is exactly for the times from the epoch on, and for the whole seconds
  before it; and there later times have later pairs.
-/

namespace ConstexprFmtStr

open Word Numeral

namespace TimestampFormatter

/-- `timestamp_secs` -/
def timestampSecs (timestampNs : ℤ) : ℤ := timestampNs.tdiv 1000000000

/-- `extracted_ms`, `extracted_us` or `extracted_ns`. -/
def extracted (specifier : AdditionalSpecifier) (timestampNs : ℤ) : ℕ :=
  extractedNs timestampNs / 10 ^ (9 - numDigits specifier)

/-- The seconds are the floor, and so is the fraction of what they leave, which is printed with all
its digits. -/
structure SplitsExactly (specifier : AdditionalSpecifier) (timestampNs : ℤ) : Prop where
  secs_eq : timestampSecs timestampNs = ⌊(timestampNs : ℚ) / (10 ^ 9 : ℕ)⌋
  extracted_eq : (extracted specifier timestampNs : ℤ) =
    ⌊((timestampNs - timestampSecs timestampNs * 10 ^ 9 : ℤ) : ℚ) /
      (10 ^ (9 - numDigits specifier) : ℕ)⌋
  length_eq : (fractionText specifier (extractedNs timestampNs)).length = numDigits specifier

/-- The later time does not have the smaller pair. -/
def InOrder (specifier : AdditionalSpecifier) (timestampNs timestampNs' : ℤ) : Prop :=
  timestampNs ≤ timestampNs' →
    toLex (timestampSecs timestampNs, extracted specifier timestampNs) ≤
      toLex (timestampSecs timestampNs', extracted specifier timestampNs')

/-- A time from the epoch on, or a whole second. -/
def FromEpoch (timestampNs : ℤ) : Prop := 0 ≤ timestampNs ∨ 10 ^ 9 ∣ timestampNs

/-! ### One time -/

section

variable {timestampNs : ℤ}

lemma timestampSecs_eq_iff : timestampSecs timestampNs = timestampNs / 10 ^ 9 ↔
    FromEpoch timestampNs := by
  have hdiv := Int.tdiv_eq_ediv (a := timestampNs) (b := 10 ^ 9)
  rw [timestampSecs, FromEpoch]
  constructor
  · intro heq
    by_contra hneg
    have hsign : Int.sign (10 ^ 9) = 1 := rfl
    rw [if_neg hneg, hsign] at hdiv
    rw [← heq] at hdiv
    norm_num at hdiv
  · intro hpos
    rw [if_pos hpos, add_zero] at hdiv
    exact hdiv

/-- There the rest is that of the division. -/
lemma extractedNs_eq (h : FromEpoch timestampNs) :
    (extractedNs timestampNs : ℤ) = timestampNs % 10 ^ 9 := by
  have hsecs := timestampSecs_eq_iff.mpr h
  rw [timestampSecs] at hsecs
  have hrest : timestampNs - timestampNs / 10 ^ 9 * 1000000000 = timestampNs % 10 ^ 9 := by
    omega
  rw [extractedNs, hsecs, hrest, wrapU_of_lt (by omega) (by omega)]
  omega

lemma extractedNs_lt_of_fromEpoch (h : FromEpoch timestampNs) :
    extractedNs timestampNs < 10 ^ 9 := by
  have heq := extractedNs_eq h
  omega

lemma splitsExactly_of_fromEpoch {specifier : AdditionalSpecifier} (hspec : specifier ≠ .none)
    (h : FromEpoch timestampNs) : SplitsExactly specifier timestampNs where
  secs_eq := by
    rw [Rat.floor_intCast_div_natCast, timestampSecs_eq_iff.mpr h]
    rfl
  extracted_eq := by
    have hrest : timestampNs - timestampNs / 10 ^ 9 * 10 ^ 9 = extractedNs timestampNs := by
      rw [extractedNs_eq h]
      omega
    rw [Rat.floor_intCast_div_natCast, timestampSecs_eq_iff.mpr h, hrest]
    rfl
  length_eq := by
    rw [fractionText_eq hspec (extractedNs_lt_of_fromEpoch h), fraction]
    rw [charBytes, List.length_map, List.length_map, length_fixed]

end

/-! ### Later times -/

/-- Of two times whose rests are those of the division, the later has the later pair. -/
lemma inOrder_of_fromEpoch (specifier : AdditionalSpecifier) {timestampNs timestampNs' : ℤ}
    (h : FromEpoch timestampNs) (h' : FromEpoch timestampNs') :
    InOrder specifier timestampNs timestampNs' := by
  intro hle
  rw [Prod.Lex.toLex_le_toLex, timestampSecs_eq_iff.mpr h, timestampSecs_eq_iff.mpr h']
  rcases (Int.ediv_le_ediv (by norm_num : (0 : ℤ) < 10 ^ 9) hle).lt_or_eq with hlt | heq
  · exact .inl hlt
  · -- within one second, the rests are in order
    refine .inr ⟨heq, Nat.div_le_div_right ?_⟩
    have hrest := extractedNs_eq h
    have hrest' := extractedNs_eq h'
    omega

/-- **The split** is exact for two times, and orders them, exactly if both are from the epoch on
or whole seconds. The calls for them print the strings of these seconds around these fractions. -/
theorem splitsExactly_iff (lib : TimeLib) (clib : CLib) {pattern : List UInt8}
    (hone : numSpecifiers pattern = 1) {timezoneType : Timezone} {now : ℤ}
    {tf : TimestampFormatter} (htf : new lib pattern timezoneType now = some (.ok tf))
    {calls : List (Places × Mem × ℤ)} {tf' : TimestampFormatter}
    (hcalls : formatAll lib clib tf calls = some tf') (timestampNs timestampNs' : ℤ) :
    (SplitsExactly tf'.additionalFormatSpecifier timestampNs ∧
          SplitsExactly tf'.additionalFormatSpecifier timestampNs' ∧
          InOrder tf'.additionalFormatSpecifier timestampNs timestampNs' ↔
        FromEpoch timestampNs ∧ FromEpoch timestampNs') ∧
      ∀ u, refresh lib tf' timestampNs = some u →
        preFormat lib { tf' with cachedTimestamp := timestampSecs timestampNs } = some u ∧
          ∀ (places : Places) (mem : Mem),
            places.Valid u.preFormattedTs1 u.preFormattedTs2 →
              returnedText lib clib places mem tf' timestampNs =
                some ((strText u.preFormattedTs1 ++
                  fractionText tf'.additionalFormatSpecifier (extractedNs timestampNs) ++
                    strText u.preFormattedTs2).take 99) := by
  obtain ⟨found, hfound, hcurrent, -⟩ := current_of_new htf
  have hcurrent' := hcurrent.of_formatAll hcalls
  have hspec : tf'.additionalFormatSpecifier ≠ .none := by
    rw [hcurrent'.specifier_eq]
    exact specifier_ne_none hone hfound
  have hfloor (ns : ℤ) (h : SplitsExactly tf'.additionalFormatSpecifier ns) : FromEpoch ns := by
    have hsecs := h.secs_eq
    rw [Rat.floor_intCast_div_natCast] at hsecs
    exact timestampSecs_eq_iff.mp hsecs
  refine ⟨⟨fun h => ⟨hfloor _ h.1, hfloor _ h.2.1⟩, fun h => ?_⟩, fun u hu => ?_⟩
  · exact ⟨splitsExactly_of_fromEpoch hspec h.1, splitsExactly_of_fromEpoch hspec h.2,
      inOrder_of_fromEpoch _ h.1 h.2⟩
  · have hmade := hu
    rw [hcurrent'.refresh_eq] at hmade
    have hu' := current_of_preFormat hmade
    refine ⟨(hcurrent'.preFormat_eq _).trans hmade, fun places mem hvalid => ?_⟩
    rw [returnedText_eq hu hu' (specifier_ne_none hone hfound) hvalid, textOf, hu'.specifier_eq,
      hcurrent'.specifier_eq]

/-- Half a second after the epoch, and a second before it. -/
theorem splitsExactly_aroundEpoch : ∃ tf : TimestampFormatter,
    new ordinaryTime (charBytes "at %Qms".toList) .gmtTime 7 = some (.ok tf) ∧
      SplitsExactly tf.additionalFormatSpecifier (-1000000000) ∧
      SplitsExactly tf.additionalFormatSpecifier 500000000 ∧
      InOrder tf.additionalFormatSpecifier (-1000000000) 500000000 := by
  have hone : numSpecifiers (charBytes "at %Qms".toList) = 1 := by decide
  obtain ⟨found, -, htf⟩ :=
    (new_eq ordinaryTime_lawful (charBytes "at %Qms".toList) .gmtTime 7).2 (by omega)
  have hcalls : formatAll ordinaryTime CLib.ascii
      ((split (charBytes "at %Qms".toList) .gmtTime 7 found).textsAt ordinaryTime 7) [] =
        some _ := rfl
  refine ⟨_, htf, ?_⟩
  exact (splitsExactly_iff ordinaryTime CLib.ascii hone htf hcalls (-1000000000) 500000000).1.mpr
    ⟨.inr (by decide), .inl (by decide)⟩

/-- One nanosecond before the epoch. -/
theorem splitsExactly_beforeEpoch :
    timestampSecs (-1) = 0 ∧ extracted .qns (-1) = 4294967295 ∧ ¬SplitsExactly .qns (-1) ∧
      ¬InOrder .qns (-1) 0 := by
  refine ⟨by decide, by decide, fun h => ?_, fun h => ?_⟩
  · have hsecs := h.secs_eq
    rw [Rat.floor_intCast_div_natCast] at hsecs
    exact absurd hsecs (by decide)
  · exact absurd (h (by decide)) (by decide)

end TimestampFormatter

end ConstexprFmtStr
