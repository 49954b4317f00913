import Mathlib.Tactic
import ConstexprFmtStr.Runtime.Rendering

/-!
The cache of `TimestampFormatter` (`timestamp_formatter.cpp`).

* `Current`: the strings of the object are those that the constructor would make for its second.
  `Current.of_formatAll`: so they are after any calls, whatever the object was asked.
* `returnedText_transparent`: a call returns what a new object returns.
* `formatTimestampOrThrow`: the call with conversions that fail.
* `unharmed_iff`: a run is not harmed by its failures exactly if no call for a second follows a
  failed one for the same second.
-/

namespace ConstexprFmtStr

open Word

namespace TimestampFormatter

variable {lib : TimeLib} {pattern : List UInt8} {timezoneType : Timezone} {found : Found}

/-! ### The strings in the cache -/

/-- The strings of `tf` are those that the constructor makes at the second in the cache. -/
def Current (lib : TimeLib) (pattern : List UInt8) (timezoneType : Timezone) (found : Found)
    (tf : TimestampFormatter) : Prop :=
  preFormat lib (split pattern timezoneType tf.cachedTimestamp found) = some tf

/-- What `preFormat` makes, and what it leaves as it was. -/
lemma preFormat_eq_some {tf tf' : TimestampFormatter} (h : preFormat lib tf = some tf') :
    (0 ∉ tf'.preFormattedTs1 ∧ (0 ∉ tf.preFormattedTs2 → 0 ∉ tf'.preFormattedTs2)) ∧
      (tf.formatPart2 = [] → tf'.preFormattedTs2 = tf.preFormattedTs2) ∧
      tf' = { tf with
        preFormattedTs1 := tf'.preFormattedTs1, preFormattedTs2 := tf'.preFormattedTs2 } := by
  simp only [preFormat, Option.bind_eq_bind, Option.bind_eq_some_iff] at h
  obtain ⟨bs1, -, h⟩ := h
  by_cases hpart : tf.formatPart2 = []
  · simp only [hpart, ne_eq, not_true, if_false, Option.pure_def, Option.some.injEq] at h
    subst h
    exact ⟨⟨nul_notMem_cString bs1, id⟩, fun _ => rfl, by rw [hpart]⟩
  · simp only [ne_eq, hpart, not_false_iff, if_true, Option.bind_eq_some_iff, Option.pure_def,
      Option.some.injEq] at h
    obtain ⟨bs2, -, rfl⟩ := h
    exact ⟨⟨nul_notMem_cString bs1, fun _ => nul_notMem_cString bs2⟩,
      fun hnil => absurd hnil hpart, rfl⟩

/-- The first string does not matter to `preFormat`, and the second only if there is no second
part. -/
lemma preFormat_congr {tf : TimestampFormatter} (ts1 ts2 : List UInt8)
    (h : tf.formatPart2 = [] → ts2 = tf.preFormattedTs2) :
    preFormat lib { tf with preFormattedTs1 := ts1, preFormattedTs2 := ts2 } =
      preFormat lib tf := by
  by_cases hpart : tf.formatPart2 = []
  · rw [h hpart]
    rfl
  · simp only [preFormat, ne_eq, hpart, not_false_iff, if_true]

section

variable {tf : TimestampFormatter} (h : Current lib pattern timezoneType found tf)

include h

/-- All but the two strings is as the constructor has set it. -/
lemma Current.eq_split :
    tf = { split pattern timezoneType tf.cachedTimestamp found with
      preFormattedTs1 := tf.preFormattedTs1, preFormattedTs2 := tf.preFormattedTs2 } :=
  (preFormat_eq_some h).2.2

lemma Current.timezoneType_eq : tf.timezoneType = timezoneType := by
  rw [h.eq_split]
  rfl

lemma Current.specifier_eq : tf.additionalFormatSpecifier = found.1 := by
  rw [h.eq_split]
  rfl

lemma Current.ts2_eq_nil (hpart : tf.formatPart2 = []) : tf.preFormattedTs2 = [] := by
  have hkeep := (preFormat_eq_some h).2.1
  rw [h.eq_split] at hpart
  exact hkeep hpart

lemma Current.nul_notMem : 0 ∉ tf.preFormattedTs1 ∧ 0 ∉ tf.preFormattedTs2 := by
  obtain ⟨⟨h1, h2⟩, -⟩ := preFormat_eq_some h
  exact ⟨h1, h2 List.not_mem_nil⟩

/-- The strings for another second are those that the constructor makes for it. -/
lemma Current.preFormat_eq (timestamp : ℤ) :
    preFormat lib { tf with cachedTimestamp := timestamp } =
      preFormat lib (split pattern timezoneType timestamp found) := by
  have hpart : (split pattern timezoneType timestamp found).formatPart2 = [] →
      tf.preFormattedTs2 = [] := by
    intro hnil
    refine h.ts2_eq_nil ?_
    rw [h.eq_split]
    exact hnil
  have hset : { tf with cachedTimestamp := timestamp } =
      { split pattern timezoneType timestamp found with
        preFormattedTs1 := tf.preFormattedTs1, preFormattedTs2 := tf.preFormattedTs2 } := by
    rw [h.eq_split]
    rfl
  rw [hset]
  exact preFormat_congr _ _ hpart

/-- **The cache.** The object that a call prints from is the one that the constructor makes for the
second of the call. -/
lemma Current.refresh_eq (timestampNs : ℤ) :
    refresh lib tf timestampNs =
      preFormat lib (split pattern timezoneType (timestampNs.tdiv 1000000000) found) := by
  rw [refresh]
  by_cases hsecs : timestampNs.tdiv 1000000000 = tf.cachedTimestamp
  · rw [if_neg (not_not.mpr hsecs), hsecs]
    exact h.symm
  · rw [if_pos hsecs]
    exact h.preFormat_eq _

end

lemma cachedTimestamp_of_preFormat {timestamp : ℤ} {tf : TimestampFormatter}
    (h : preFormat lib (split pattern timezoneType timestamp found) = some tf) :
    tf.cachedTimestamp = timestamp := by
  rw [(preFormat_eq_some h).2.2]
  rfl

lemma current_of_preFormat {timestamp : ℤ} {tf : TimestampFormatter}
    (h : preFormat lib (split pattern timezoneType timestamp found) = some tf) :
    Current lib pattern timezoneType found tf := by
  rw [Current, cachedTimestamp_of_preFormat h]
  exact h

/-- What the constructor has made. -/
lemma current_of_new {now : ℤ} {tf : TimestampFormatter}
    (h : new lib pattern timezoneType now = some (.ok tf)) :
    ∃ found, searchAll pattern = .ok found ∧ Current lib pattern timezoneType found tf ∧
      tf.cachedTimestamp = now := by
  rw [new] at h
  cases hsearch : searchAll pattern with
  | error e =>
      rw [hsearch] at h
      exact absurd (Option.some.inj h) (by simp)
  | ok found =>
      rw [hsearch] at h
      obtain ⟨tf', htf', heq⟩ := Option.map_eq_some_iff.mp h
      obtain rfl := Except.ok.inj heq
      exact ⟨found, rfl, current_of_preFormat htf', cachedTimestamp_of_preFormat htf'⟩

lemma refresh_of_formatTimestamp {clib : CLib} {places : Places} {mem mem' : Mem}
    {tf tf' : TimestampFormatter} {timestampNs : ℤ}
    (h : formatTimestamp lib clib places mem tf timestampNs = some (tf', mem')) :
    refresh lib tf timestampNs = some tf' := by
  simp only [formatTimestamp, Option.bind_eq_bind, Option.bind_eq_some_iff, Option.pure_def,
    Option.some.injEq, Prod.mk.injEq] at h
  obtain ⟨tf'', hrefresh, -, -, rfl, -⟩ := h
  exact hrefresh

/-- One call keeps the cache. -/
lemma Current.of_formatTimestamp {clib : CLib} {places : Places} {mem mem' : Mem}
    {tf tf' : TimestampFormatter} {timestampNs : ℤ}
    (h : Current lib pattern timezoneType found tf)
    (hcall : formatTimestamp lib clib places mem tf timestampNs = some (tf', mem')) :
    Current lib pattern timezoneType found tf' := by
  have hrefresh := refresh_of_formatTimestamp hcall
  rw [h.refresh_eq] at hrefresh
  exact current_of_preFormat hrefresh

/-- **Any calls** keep it. -/
lemma Current.of_formatAll {clib : CLib} {calls : List (Places × Mem × ℤ)}
    {tf tf' : TimestampFormatter} (h : Current lib pattern timezoneType found tf)
    (hcalls : formatAll lib clib tf calls = some tf') :
    Current lib pattern timezoneType found tf' := by
  induction calls generalizing tf with
  | nil =>
      obtain rfl := Option.some.inj hcalls
      exact h
  | cons call calls ih =>
      obtain ⟨places, mem, timestampNs⟩ := call
      rw [formatAll] at hcalls
      obtain ⟨⟨tf1, mem1⟩, hcall, hrest⟩ := Option.bind_eq_some_iff.mp hcalls
      exact ih (h.of_formatTimestamp hcall) hrest

/-! ### What a call returns -/

/-- The C string in the array that `format_timestamp(timestamp_ns)` returns. -/
def returnedText (lib : TimeLib) (clib : CLib) (places : Places) (mem : Mem)
    (tf : TimestampFormatter) (timestampNs : ℤ) : Option (List UInt8) :=
  (formatTimestamp lib clib places mem tf timestampNs).map fun r => arrayText r.2 places.buffer

/-- `extracted_ns` -/
def extractedNs (timestampNs : ℤ) : ℕ :=
  wrapU 32 (timestampNs - timestampNs.tdiv 1000000000 * 1000000000)

lemma extractedNs_lt (timestampNs : ℤ) : extractedNs timestampNs < 2 ^ 32 := wrapU_lt _ _

/-- The text of the strings of `tf` around a fraction. -/
def textOf (tf : TimestampFormatter) (timestampNs : ℤ) : List UInt8 :=
  (strText tf.preFormattedTs1 ++
    fractionText tf.additionalFormatSpecifier (extractedNs timestampNs) ++
      strText tf.preFormattedTs2).take 99

lemma formatTimestamp_eq_map (clib : CLib) (places : Places) (mem : Mem)
    {tf tf' : TimestampFormatter} {timestampNs : ℤ}
    (h : refresh lib tf timestampNs = some tf') :
    formatTimestamp lib clib places mem tf timestampNs =
      (printParts clib places (places.put mem tf') tf' (extractedNs timestampNs)).map fun mem' =>
        (tf', mem') := by
  rw [formatTimestamp, h]
  simp only [Option.bind_eq_bind, Option.bind_some, Option.pure_def, Option.map_eq_bind,
    extractedNs]
  rfl

/-- **The text of a call** is the text of the strings for its second. -/
lemma returnedText_eq {tf tf' : TimestampFormatter} {timestampNs : ℤ}
    (h : refresh lib tf timestampNs = some tf')
    (hcurrent : Current lib pattern timezoneType found tf') (hspec : found.1 ≠ .none)
    {places : Places} (hvalid : places.Valid tf'.preFormattedTs1 tf'.preFormattedTs2) (clib : CLib)
    (mem : Mem) :
    returnedText lib clib places mem tf timestampNs = some (textOf tf' timestampNs) := by
  have hplaced := placed_put hvalid hcurrent.nul_notMem hcurrent.ts2_eq_nil mem
  rw [← hcurrent.specifier_eq] at hspec
  obtain ⟨mem', hprint, htext⟩ := printParts_eq hplaced hspec (extractedNs_lt timestampNs) clib
  rw [returnedText, formatTimestamp_eq_map clib places mem h, hprint]
  exact congrArg some htext

/-- A call that the object never returns from. -/
lemma returnedText_eq_none {tf : TimestampFormatter} {timestampNs : ℤ}
    (h : refresh lib tf timestampNs = none) (clib : CLib) (places : Places) (mem : Mem) :
    returnedText lib clib places mem tf timestampNs = none := by
  rw [returnedText, formatTimestamp, h]
  rfl

lemma specifier_ne_none {found : Found} (hone : numSpecifiers pattern = 1)
    (hfound : searchAll pattern = .ok found) : found.1 ≠ .none := by
  obtain ⟨found', hfound', hsearched⟩ := (searchAll_eq pattern).2 (by omega)
  rw [hfound] at hfound'
  obtain rfl := Except.ok.inj hfound'
  intro hnone
  have hsum := hsearched.sum_eq
  rw [if_pos hnone] at hsum
  omega

/-- **The cache is transparent.** After any calls, a call returns what it returns on an object that
was just made, at whatever time and wherever its strings stand. -/
theorem returnedText_transparent (lib : TimeLib) (clib : CLib) {pattern : List UInt8}
    (hone : numSpecifiers pattern = 1) {timezoneType : Timezone} {now now' : ℤ}
    {tf fresh : TimestampFormatter} (htf : new lib pattern timezoneType now = some (.ok tf))
    (hfresh : new lib pattern timezoneType now' = some (.ok fresh))
    {calls : List (Places × Mem × ℤ)} {tf' : TimestampFormatter}
    (hcalls : formatAll lib clib tf calls = some tf') (timestampNs : ℤ) (places places' : Places)
    (mem mem' : Mem)
    (hvalid : ∀ u, refresh lib fresh timestampNs = some u →
      places.Valid u.preFormattedTs1 u.preFormattedTs2 ∧
        places'.Valid u.preFormattedTs1 u.preFormattedTs2) :
    returnedText lib clib places mem tf' timestampNs =
        returnedText lib clib places' mem' fresh timestampNs ∧
      (lib.Lawful → (returnedText lib clib places mem tf' timestampNs).isSome) := by
  obtain ⟨found, hfound, hcurrent, -⟩ := current_of_new htf
  obtain ⟨found', hfound', hcurrent', -⟩ := current_of_new hfresh
  obtain rfl := Except.ok.inj (hfound.symm.trans hfound')
  have hspec := specifier_ne_none hone hfound
  have hrefresh := (hcurrent.of_formatAll hcalls).refresh_eq timestampNs
  rw [← hcurrent'.refresh_eq] at hrefresh
  cases hfreshened : refresh lib fresh timestampNs with
  | none =>
      rw [hfreshened] at hrefresh
      refine ⟨?_, fun hlawful => ?_⟩
      · rw [returnedText_eq_none hrefresh, returnedText_eq_none hfreshened]
      · rw [hcurrent'.refresh_eq, preFormat_eq hlawful fun _ => rfl] at hfreshened
        exact absurd hfreshened (by simp)
  | some u =>
      rw [hfreshened] at hrefresh
      obtain ⟨hplaces, hplaces'⟩ := hvalid u hfreshened
      have hu : Current lib pattern timezoneType found u := by
        rw [hcurrent'.refresh_eq] at hfreshened
        exact current_of_preFormat hfreshened
      rw [returnedText_eq hrefresh hu hspec hplaces, returnedText_eq hfreshened hu hspec hplaces']
      exact ⟨rfl, fun _ => rfl⟩

lemma length_textsAt_ordinaryTime (tf : TimestampFormatter) (timestamp : ℤ) :
    (tf.textsAt ordinaryTime timestamp).preFormattedTs1.length ≤ tf.formatPart1.length ∧
      (tf.textsAt ordinaryTime timestamp).preFormattedTs2.length ≤ tf.formatPart2.length :=
  ⟨length_ordinaryTime _ (timeInfo ordinaryTime tf.timezoneType timestamp),
    length_ordinaryTime _ (timeInfo ordinaryTime tf.timezoneType timestamp)⟩

/-- The calls before may be for any times, in any order. -/
theorem returnedText_transparent_milliseconds :
    ∃ tf tf' fresh : TimestampFormatter,
      new ordinaryTime (charBytes "at %Qms".toList) .gmtTime 7 = some (.ok tf) ∧
        formatAll ordinaryTime CLib.ascii tf
            [(⟨0, 100, 200⟩, fun _ => 0, 12000000000), (⟨0, 100, 200⟩, fun _ => 1, -5)] =
          some tf' ∧
        new ordinaryTime (charBytes "at %Qms".toList) .gmtTime 0 = some (.ok fresh) ∧
        returnedText ordinaryTime CLib.ascii ⟨0, 100, 200⟩ (fun _ => 2) tf' 11999000000 =
          returnedText ordinaryTime CLib.ascii ⟨500, 10, 20⟩ (fun _ => 3) fresh 11999000000 := by
  have hone : numSpecifiers (charBytes "at %Qms".toList) = 1 := by decide
  have hlen : (charBytes "at %Qms".toList).length = 7 := rfl
  generalize charBytes "at %Qms".toList = pattern at hone hlen ⊢
  have hmade := fun now => (new_eq ordinaryTime_lawful pattern .gmtTime now).2 (by omega)
  obtain ⟨found, -, htf⟩ := hmade 7
  obtain ⟨found', -, hfresh⟩ := hmade 0
  obtain ⟨timestamp, hcalls⟩ := formatAll_eq ordinaryTime_lawful CLib.ascii
    (split pattern .gmtTime 7 found) 7
    [(⟨0, 100, 200⟩, fun _ => 0, 12000000000), (⟨0, 100, 200⟩, fun _ => 1, -5)]
  refine ⟨_, _, _, htf, hcalls, hfresh, ?_⟩
  refine (returnedText_transparent ordinaryTime CLib.ascii hone htf hfresh hcalls 11999000000
    ⟨0, 100, 200⟩ ⟨500, 10, 20⟩ (fun _ => 2) (fun _ => 3) ?_).1
  intro u hu
  rw [refresh_eq ordinaryTime_lawful] at hu
  obtain rfl := Option.some.inj hu
  -- the strings are no longer than the parts of the pattern
  have hpart1 : (split pattern .gmtTime 0 found').formatPart1.length ≤ 7 := by
    simp only [split]
    split_ifs
    · exact hlen.le
    · exact (List.length_take_le' _ _).trans hlen.le
  have hpart2 : (split pattern .gmtTime 0 found').formatPart2.length ≤ 7 := by
    simp only [split]
    split_ifs
    · exact Nat.zero_le 7
    · rw [List.length_drop, hlen]
      exact Nat.sub_le _ _
  obtain ⟨h1, h2⟩ := length_textsAt_ordinaryTime (split pattern .gmtTime 0 found')
    (Int.tdiv 11999000000 1000000000)
  constructor <;> constructor <;> dsimp only <;> omega

/-! ### Conversions that fail -/

/-- What the C library says of a conversion that fails. -/
inductive ConversionFailure
  /-- of `localtime_r` and `gmtime_r` -/
  | posix (errno : ℤ) (strerror : String)
  /-- of `localtime_s` and `gmtime_s` -/
  | windows (errno : ℤ)

/-- The function that throws. -/
def conversionName : Timezone → String
  | .localTime => "localtime_rs"
  | .gmtTime => "gmtime_rs"

/-- The end of the message. -/
def failureText : ConversionFailure → Timezone → String
  | .posix errno strerror, _ => "\"" ++ strerror ++ "\", errno \"" ++ toString errno ++ "\""
  | .windows errno, .localTime => "errno: \"" ++ toString errno ++ "\""
  | .windows errno, .gmtTime => "errno : \"" ++ toString errno ++ "\""

/-- What it throws. -/
def conversionError (timezoneType : Timezone) (failure : ConversionFailure) : TzError where
  what := "failed to call " ++ conversionName timezoneType ++ ", with error message " ++
    failureText failure timezoneType

/-- One call of `format_timestamp`, with its memory. -/
abbrev Call := Places × Mem × ℤ

/-- `timestamp_secs` -/
def Call.second (call : Call) : ℤ := call.2.2.tdiv 1000000000

/-- The constructor, with conversions that fail. -/
def newOrThrow (lib : TimeLib) (fails : Timezone → ℤ → Option ConversionFailure)
    (timestampFormatString : List UInt8) (timezoneType : Timezone) (now : ℤ) :
    Option (Except TzError TimestampFormatter) :=
  match searchAll timestampFormatString, fails timezoneType now with
  | .error e, _ => some (.error e)
  | .ok _, some failure => some (.error (conversionError timezoneType failure))
  | .ok _, none => new lib timestampFormatString timezoneType now

/-- `format_timestamp(timestamp_ns)`, with conversions that fail: they throw after the second in
the cache has been set, and before its strings are. -/
def formatTimestampOrThrow (lib : TimeLib) (clib : CLib)
    (fails : Timezone → ℤ → Option ConversionFailure) (tf : TimestampFormatter) (call : Call) :
    Option (TimestampFormatter × Except TzError Mem) :=
  let returned := (formatTimestamp lib clib call.1 call.2.1 tf call.2.2).map fun r =>
    (r.1, Except.ok r.2)
  if call.second ≠ tf.cachedTimestamp then
    match fails tf.timezoneType call.second with
    | some failure =>
        some ({ tf with cachedTimestamp := call.second },
          .error (conversionError tf.timezoneType failure))
    | none => returned
  else returned

/-- What the caller sees: the exception, or the C string. -/
def outcome (lib : TimeLib) (clib : CLib) (fails : Timezone → ℤ → Option ConversionFailure)
    (tf : TimestampFormatter) (call : Call) : Option (Except TzError (List UInt8)) :=
  (formatTimestampOrThrow lib clib fails tf call).map fun r =>
    r.2.map fun mem => arrayText mem call.1.buffer

/-- One call of a run, which keeps the list of the calls that have returned. -/
def stepCall (lib : TimeLib) (clib : CLib) (fails : Timezone → ℤ → Option ConversionFailure)
    (s : TimestampFormatter × List Call) (call : Call) :
    Option (TimestampFormatter × List Call) :=
  (formatTimestampOrThrow lib clib fails s.1 call).map fun r =>
    (r.1, if r.2.isOk then s.2 ++ [call] else s.2)

/-- Any calls, one after the other, whether they return or throw. -/
def runCalls (lib : TimeLib) (clib : CLib) (fails : Timezone → ℤ → Option ConversionFailure)
    (tf : TimestampFormatter) (calls : List Call) : Option (TimestampFormatter × List Call) :=
  calls.foldlM (stepCall lib clib fails) (tf, [])

/-- Every call does what it does after only those before it that have returned. -/
def Unharmed (lib : TimeLib) (clib : CLib) (fails : Timezone → ℤ → Option ConversionFailure)
    (tf : TimestampFormatter) (calls : List Call) : Prop :=
  ∀ before call after, calls = before ++ call :: after →
    ∀ u returned, runCalls lib clib fails tf before = some (u, returned) →
      ∃ v, runCalls lib clib fails tf returned = some (v, returned) ∧
        outcome lib clib fails u call = outcome lib clib fails v call

/-- What a call does on an object that was just made: it throws exactly if the conversion of its
second fails. -/
def outcomeAlone (lib : TimeLib) (clib : CLib) (fails : Timezone → ℤ → Option ConversionFailure)
    (tf : TimestampFormatter) (call : Call) : Option (Except TzError (List UInt8)) :=
  (fails tf.timezoneType call.second).elim
    ((returnedText lib clib call.1 call.2.1 tf call.2.2).map .ok)
    fun failure => some (.error (conversionError tf.timezoneType failure))

/-- The call converts a second, and the conversion fails. -/
def Throws (fails : Timezone → ℤ → Option ConversionFailure) (tf : TimestampFormatter)
    (call : Call) : Prop :=
  call.second ≠ tf.cachedTimestamp ∧ fails tf.timezoneType call.second ≠ none

/-- No call for a second follows directly on one that has thrown for the same second. -/
def Spaced (lib : TimeLib) (clib : CLib) (fails : Timezone → ℤ → Option ConversionFailure)
    (tf : TimestampFormatter) (calls : List Call) : Prop :=
  ∀ before call next after, calls = before ++ call :: next :: after →
    ∀ u returned, runCalls lib clib fails tf before = some (u, returned) →
      Throws fails u call → next.second ≠ call.second

section

variable {clib : CLib} {fails : Timezone → ℤ → Option ConversionFailure} {call : Call}

lemma formatTimestampOrThrow_throw {tf : TimestampFormatter} (h : call.second ≠ tf.cachedTimestamp)
    {failure : ConversionFailure} (hfails : fails tf.timezoneType call.second = some failure) :
    formatTimestampOrThrow lib clib fails tf call =
      some ({ tf with cachedTimestamp := call.second },
        .error (conversionError tf.timezoneType failure)) := by
  simp only [formatTimestampOrThrow, if_pos h, hfails]

lemma formatTimestampOrThrow_return {tf : TimestampFormatter}
    (h : call.second ≠ tf.cachedTimestamp → fails tf.timezoneType call.second = none) :
    formatTimestampOrThrow lib clib fails tf call =
      (formatTimestamp lib clib call.1 call.2.1 tf call.2.2).map fun r => (r.1, .ok r.2) := by
  rw [formatTimestampOrThrow]
  by_cases hsecs : call.second = tf.cachedTimestamp
  · rw [if_neg (not_not.mpr hsecs)]
  · simp only [if_pos hsecs, h hsecs]

lemma runCalls_snoc (tf : TimestampFormatter) (calls : List Call) (call : Call) :
    runCalls lib clib fails tf (calls ++ [call]) =
      (runCalls lib clib fails tf calls).bind fun s => stepCall lib clib fails s call := by
  rw [runCalls, List.foldlM_append]
  simp only [List.foldlM_cons, List.foldlM_nil, bind_pure]
  rfl

lemma length_returned_le {tf u : TimestampFormatter} {calls returned : List Call}
    (h : runCalls lib clib fails tf calls = some (u, returned)) :
    returned.length ≤ calls.length := by
  induction calls using List.reverseRecOn generalizing u returned with
  | nil =>
      obtain ⟨-, rfl⟩ := Prod.mk.inj (Option.some.inj h)
      exact le_rfl
  | append_singleton calls call ih =>
      rw [runCalls_snoc, Option.bind_eq_some_iff] at h
      obtain ⟨⟨u', returned'⟩, hrun, hstep⟩ := h
      obtain ⟨r, -, heq⟩ := Option.map_eq_some_iff.mp hstep
      obtain ⟨-, rfl⟩ := Prod.mk.inj heq
      have hle : (u', returned').2.length ≤ calls.length := ih hrun
      rw [List.length_append, List.length_singleton]
      split_ifs
      · rw [List.length_append, List.length_singleton]
        omega
      · omega

lemma timezoneType_of_refresh {tf tf' : TimestampFormatter} {timestampNs : ℤ}
    (h : refresh lib tf timestampNs = some tf') : tf'.timezoneType = tf.timezoneType := by
  rw [refresh] at h
  split_ifs at h
  · rw [(preFormat_eq_some h).2.2]
  · obtain rfl := Option.some.inj h
    rfl

/-- A call keeps the time zone. -/
lemma timezoneType_of_call {tf : TimestampFormatter} {r : TimestampFormatter × Except TzError Mem}
    (h : formatTimestampOrThrow lib clib fails tf call = some r) :
    r.1.timezoneType = tf.timezoneType := by
  by_cases hthrows : Throws fails tf call
  · obtain ⟨failure, hfails⟩ := Option.ne_none_iff_exists'.mp hthrows.2
    rw [formatTimestampOrThrow_throw hthrows.1 hfails] at h
    obtain rfl := Option.some.inj h
    rfl
  · rw [formatTimestampOrThrow_return fun hne => by_contra fun hfails => hthrows ⟨hne, hfails⟩] at h
    obtain ⟨r', hcall, rfl⟩ := Option.map_eq_some_iff.mp h
    exact timezoneType_of_refresh (refresh_of_formatTimestamp hcall)

lemma timezoneType_of_runCalls {tf u : TimestampFormatter} {calls returned : List Call}
    (h : runCalls lib clib fails tf calls = some (u, returned)) :
    u.timezoneType = tf.timezoneType := by
  induction calls using List.reverseRecOn generalizing u returned with
  | nil =>
      obtain ⟨rfl, -⟩ := Prod.mk.inj (Option.some.inj h)
      rfl
  | append_singleton calls call ih =>
      rw [runCalls_snoc, Option.bind_eq_some_iff] at h
      obtain ⟨⟨u', returned'⟩, hrun, hstep⟩ := h
      obtain ⟨r, hcall, heq⟩ := Option.map_eq_some_iff.mp hstep
      obtain ⟨rfl, -⟩ := Prod.mk.inj heq
      exact (timezoneType_of_call hcall).trans (ih hrun)

/-! ### Objects without a failure -/

/-- The strings are those of the second in the cache, and its conversion does not fail. -/
structure Sound (lib : TimeLib) (fails : Timezone → ℤ → Option ConversionFailure)
    (pattern : List UInt8) (timezoneType : Timezone) (found : Found) (tf : TimestampFormatter) :
    Prop where
  current : Current lib pattern timezoneType found tf
  converts : fails timezoneType tf.cachedTimestamp = none

section

variable {v : TimestampFormatter} (h : Sound lib fails pattern timezoneType found v)

include h

/-- A second whose conversion fails is not the one in the cache. -/
lemma Sound.throw {failure : ConversionFailure}
    (hfails : fails timezoneType call.second = some failure) :
    call.second ≠ v.cachedTimestamp ∧
      formatTimestampOrThrow lib clib fails v call =
        some ({ v with cachedTimestamp := call.second },
          .error (conversionError timezoneType failure)) := by
  have hne : call.second ≠ v.cachedTimestamp := by
    intro heq
    rw [heq, h.converts] at hfails
    exact absurd hfails nofun
  rw [← h.current.timezoneType_eq] at hfails ⊢
  exact ⟨hne, formatTimestampOrThrow_throw hne hfails⟩

lemma Sound.return (hfails : fails timezoneType call.second = none) :
    formatTimestampOrThrow lib clib fails v call =
      (formatTimestamp lib clib call.1 call.2.1 v call.2.2).map fun r => (r.1, .ok r.2) := by
  rw [← h.current.timezoneType_eq] at hfails
  exact formatTimestampOrThrow_return fun _ => hfails

/-- A call that returns leaves such an object. -/
lemma Sound.of_return (hfails : fails timezoneType call.second = none) {mem' : Mem}
    {v' : TimestampFormatter}
    (hcall : formatTimestamp lib clib call.1 call.2.1 v call.2.2 = some (v', mem')) :
    Sound lib fails pattern timezoneType found v' := by
  have hrefresh := refresh_of_formatTimestamp hcall
  rw [h.current.refresh_eq] at hrefresh
  refine ⟨current_of_preFormat hrefresh, ?_⟩
  rw [(preFormat_eq_some hrefresh).2.2]
  exact hfails

/-- **After a failure**, a call for another second does what it would have done before it. -/
lemma Sound.after_throw {timestamp : ℤ} (hne : call.second ≠ timestamp) :
    formatTimestampOrThrow lib clib fails { v with cachedTimestamp := timestamp } call =
      formatTimestampOrThrow lib clib fails v call := by
  cases hfails : fails timezoneType call.second with
  | some failure =>
      rw [(h.throw hfails).2]
      rw [← h.current.timezoneType_eq] at hfails ⊢
      exact formatTimestampOrThrow_throw hne hfails
  | none =>
      have hrefresh : refresh lib { v with cachedTimestamp := timestamp } call.2.2 =
          refresh lib v call.2.2 := by
        rw [h.current.refresh_eq, ← h.current.preFormat_eq]
        exact if_pos hne
      rw [h.return hfails]
      rw [← h.current.timezoneType_eq] at hfails
      generalize htf : { v with cachedTimestamp := timestamp } = tf at hrefresh ⊢
      have hfails' : fails tf.timezoneType call.second = none := by
        rw [← htf]
        exact hfails
      rw [formatTimestampOrThrow_return fun _ => hfails', formatTimestamp, hrefresh]
      rfl

/-- **What a call does** does not depend on the calls before it. -/
lemma Sound.outcome_eq {w : TimestampFormatter} (hw : Current lib pattern timezoneType found w) :
    outcome lib clib fails v call = outcomeAlone lib clib fails w call := by
  rw [outcomeAlone, hw.timezoneType_eq]
  cases hfails : fails timezoneType call.second with
  | some failure =>
      rw [outcome, (h.throw hfails).2]
      rfl
  | none =>
      have hrefresh : refresh lib v call.2.2 = refresh lib w call.2.2 := by
        rw [h.current.refresh_eq, hw.refresh_eq]
      rw [outcome, h.return hfails, Option.elim_none, returnedText, formatTimestamp,
        formatTimestamp, hrefresh]
      simp only [Option.map_map]
      rfl

end

/-! ### Runs with failures -/

/-- The object of a run, and the one of the calls that have returned: they differ at most in the
second that the last call has failed for. -/
def Shadowed (lib : TimeLib) (clib : CLib) (fails : Timezone → ℤ → Option ConversionFailure)
    (tf : TimestampFormatter) (before : List Call) (u v : TimestampFormatter) : Prop :=
  u = v ∨ ∃ calls call w returned, before = calls ++ [call] ∧
    runCalls lib clib fails tf calls = some (w, returned) ∧ Throws fails w call ∧
    u = { v with cachedTimestamp := call.second }

section

variable {tf u v : TimestampFormatter} {calls before after : List Call}
  (hshadow : Shadowed lib clib fails tf before u v)
  (hv : Sound lib fails pattern timezoneType found v) (hspaced : Spaced lib clib fails tf calls)
  (hcalls : calls = before ++ call :: after)

include hshadow hv hspaced hcalls

/-- The next call is for another second than that of the failure. -/
lemma Shadowed.call_eq :
    formatTimestampOrThrow lib clib fails u call =
        formatTimestampOrThrow lib clib fails v call := by
  rcases hshadow with rfl | ⟨calls', failed, w, returned, rfl, hrun, hthrows, rfl⟩
  · rfl
  · have hsplit : calls = calls' ++ failed :: call :: after := by
      rw [hcalls, List.append_assoc, List.singleton_append]
    exact hv.after_throw (hspaced _ _ _ _ hsplit _ _ hrun hthrows)

lemma Shadowed.throws (hfails : fails timezoneType call.second ≠ none) :
    Throws fails u call := by
  rcases hshadow with rfl | ⟨calls', failed, w, returned, rfl, hrun, hthrows, rfl⟩
  · refine ⟨fun heq => ?_, ?_⟩
    · rw [heq, hv.converts] at hfails
      exact hfails rfl
    · rwa [hv.current.timezoneType_eq]
  · have hsplit : calls = calls' ++ failed :: call :: after := by
      rw [hcalls, List.append_assoc, List.singleton_append]
    refine ⟨hspaced _ _ _ _ hsplit _ _ hrun hthrows, ?_⟩
    show fails v.timezoneType call.second ≠ none
    rwa [hv.current.timezoneType_eq]

end

section

variable {tf : TimestampFormatter} (h : Sound lib fails pattern timezoneType found tf)

include h

/-- A run in which all calls return leaves such an object. -/
lemma Sound.of_runCalls {calls : List Call} {v : TimestampFormatter}
    (hrun : runCalls lib clib fails tf calls = some (v, calls)) :
    Sound lib fails pattern timezoneType found v := by
  induction calls using List.reverseRecOn generalizing v with
  | nil =>
      obtain ⟨rfl, -⟩ := Prod.mk.inj (Option.some.inj hrun)
      exact h
  | append_singleton calls call ih =>
      rw [runCalls_snoc, Option.bind_eq_some_iff] at hrun
      obtain ⟨⟨u, returned⟩, hrun, hstep⟩ := hrun
      have hle := length_returned_le hrun
      obtain ⟨r, hcall, heq⟩ := Option.map_eq_some_iff.mp hstep
      obtain ⟨rfl, hreturned⟩ := Prod.mk.inj heq
      have hok : r.2.isOk = true := by
        by_contra hthrown
        rw [if_neg hthrown] at hreturned
        have hlen := congrArg List.length hreturned
        rw [List.length_append, List.length_singleton] at hlen
        dsimp only at hlen
        omega
      rw [if_pos hok, List.append_cancel_right_eq] at hreturned
      dsimp only at hreturned hcall
      subst hreturned
      have hu := ih hrun
      cases hfails : fails timezoneType call.second with
      | some failure =>
          rw [(hu.throw hfails).2] at hcall
          obtain rfl := Option.some.inj hcall
          exact absurd hok Bool.false_ne_true
      | none =>
          rw [hu.return hfails] at hcall
          obtain ⟨⟨v', mem'⟩, hreturn, rfl⟩ := Option.map_eq_some_iff.mp hcall
          exact hu.of_return hfails hreturn

/-- **Run lemma.** -/
lemma Sound.shadowed {calls : List Call} (hspaced : Spaced lib clib fails tf calls)
    {before after : List Call} (hcalls : calls = before ++ after) {u : TimestampFormatter}
    {returned : List Call}
    (hrun : runCalls lib clib fails tf before = some (u, returned)) :
    ∃ v, runCalls lib clib fails tf returned = some (v, returned) ∧
      Sound lib fails pattern timezoneType found v ∧ Shadowed lib clib fails tf before u v := by
  induction before using List.reverseRecOn generalizing after u returned with
  | nil =>
      obtain ⟨rfl, rfl⟩ := Prod.mk.inj (Option.some.inj hrun)
      exact ⟨tf, rfl, h, .inl rfl⟩
  | append_singleton before call ih =>
      have hbefore := hrun
      rw [runCalls_snoc, Option.bind_eq_some_iff] at hbefore
      obtain ⟨⟨u1, returned1⟩, hrun1, hstep⟩ := hbefore
      have hcalls1 : calls = before ++ call :: after := by
        rw [hcalls, List.append_assoc, List.singleton_append]
      obtain ⟨v1, hv1, hsound1, hshadow1⟩ := ih hcalls1 hrun1
      obtain ⟨r, hcall, heq⟩ := Option.map_eq_some_iff.mp hstep
      obtain ⟨rfl, rfl⟩ := Prod.mk.inj heq
      have hsame := hshadow1.call_eq hsound1 hspaced hcalls1
      rw [hsame] at hcall
      cases hfails : fails timezoneType call.second with
      | some failure =>
          have hthrows := hshadow1.throws hsound1 hspaced hcalls1 (hfails ▸ Option.some_ne_none _)
          rw [(hsound1.throw hfails).2] at hcall
          obtain rfl := Option.some.inj hcall
          exact ⟨v1, hv1, hsound1, .inr ⟨before, call, u1, returned1, rfl, hrun1, hthrows, rfl⟩⟩
      | none =>
          have hmapped := hcall
          rw [hsound1.return hfails] at hmapped
          obtain ⟨⟨v', mem'⟩, hreturn, rfl⟩ := Option.map_eq_some_iff.mp hmapped
          refine ⟨v', ?_, hsound1.of_return hfails hreturn, .inl rfl⟩
          have hkept : (Except.ok mem' : Except TzError Mem).isOk = true := rfl
          simp only [hkept, if_true]
          rw [runCalls_snoc, hv1, Option.bind_some, stepCall, hcall]
          rfl

end

/-- **Spaced runs**: each call does what it does on an object that was just made. -/
lemma Sound.unharmed {tf : TimestampFormatter} {calls : List Call}
    (h : Sound lib fails pattern timezoneType found tf)
    (hspaced : Spaced lib clib fails tf calls) {before after : List Call}
    (hcalls : calls = before ++ call :: after) {u : TimestampFormatter} {returned : List Call}
    (hrun : runCalls lib clib fails tf before = some (u, returned)) :
    (∃ v, runCalls lib clib fails tf returned = some (v, returned) ∧
        outcome lib clib fails u call = outcome lib clib fails v call) ∧
      outcome lib clib fails u call = outcomeAlone lib clib fails tf call := by
  obtain ⟨v, hv, hsound, hshadow⟩ := h.shadowed hspaced hcalls hrun
  have hsame : outcome lib clib fails u call = outcome lib clib fails v call := by
    rw [outcome, outcome, hshadow.call_eq hsound hspaced hcalls]
  exact ⟨⟨v, hv, hsame⟩, hsame.trans (hsound.outcome_eq h.current)⟩

/-- **Unharmed runs.** A call right after a failure for its own second would return the text of
another one. -/
lemma Sound.spaced {tf : TimestampFormatter} {calls : List Call}
    (h : Sound lib fails pattern timezoneType found tf)
    (hunharmed : Unharmed lib clib fails tf calls) : Spaced lib clib fails tf calls := by
  intro before call next after hcalls u returned hrun hthrows hsecond
  have htz : u.timezoneType = timezoneType :=
    (timezoneType_of_runCalls hrun).trans h.current.timezoneType_eq
  obtain ⟨failure, hfails⟩ := Option.ne_none_iff_exists'.mp hthrows.2
  have hthrow : formatTimestampOrThrow lib clib fails u call = _ :=
    formatTimestampOrThrow_throw hthrows.1 hfails
  obtain ⟨u', hu'⟩ : ∃ u', { u with cachedTimestamp := call.second } = u' := ⟨_, rfl⟩
  rw [hu'] at hthrow
  -- the failure is not among the calls that have returned
  have hafter : runCalls lib clib fails tf (before ++ [call]) = some (u', returned) := by
    rw [runCalls_snoc, hrun, Option.bind_some, stepCall, hthrow]
    rfl
  have hsplit : calls = (before ++ [call]) ++ next :: after := by
    rw [hcalls, List.append_assoc, List.singleton_append]
  obtain ⟨v, hv, hsame⟩ := hunharmed _ _ _ hsplit _ _ hafter
  have hcached : next.second = u'.cachedTimestamp := by
    rw [hsecond, ← hu']
  rw [htz, ← hsecond] at hfails
  rw [outcome, outcome, ((h.of_runCalls hv).throw hfails).2,
    formatTimestampOrThrow_return fun hne => absurd hcached hne] at hsame
  cases hcall : formatTimestamp lib clib next.1 next.2.1 u' next.2.2 with
  | none =>
      rw [hcall] at hsame
      exact absurd hsame nofun
  | some r =>
      rw [hcall] at hsame
      exact absurd (Option.some.inj hsame) nofun

lemma sound_of_newOrThrow {now : ℤ} {tf : TimestampFormatter}
    (h : newOrThrow lib fails pattern timezoneType now = some (.ok tf)) :
    ∃ found, Sound lib fails pattern timezoneType found tf := by
  rw [newOrThrow] at h
  split at h
  · exact absurd (Option.some.inj h) nofun
  · exact absurd (Option.some.inj h) nofun
  · rename_i hfails
    obtain ⟨found, -, hcurrent, hcached⟩ := current_of_new h
    exact ⟨found, hcurrent, hcached ▸ hfails⟩

/-- **Failures.** A run is not harmed by them exactly if no call follows directly on a failed one
for the same second; and then every call does what it does on an object that was just made. -/
theorem unharmed_iff (lib : TimeLib) (clib : CLib)
    (fails : Timezone → ℤ → Option ConversionFailure) {pattern : List UInt8}
    {timezoneType : Timezone} {now : ℤ} {tf : TimestampFormatter}
    (hnew : newOrThrow lib fails pattern timezoneType now = some (.ok tf)) (calls : List Call) :
    (Unharmed lib clib fails tf calls ↔ Spaced lib clib fails tf calls) ∧
      (Spaced lib clib fails tf calls →
        ∀ before call after, calls = before ++ call :: after →
          ∀ u returned, runCalls lib clib fails tf before = some (u, returned) →
            outcome lib clib fails u call = outcomeAlone lib clib fails tf call) := by
  obtain ⟨found, hsound⟩ := sound_of_newOrThrow hnew
  refine ⟨⟨hsound.spaced, fun hspaced => ?_⟩, fun hspaced => ?_⟩
  · intro before call after hcalls u returned hrun
    exact (hsound.unharmed hspaced hcalls hrun).1
  · intro before call after hcalls u returned hrun
    exact (hsound.unharmed hspaced hcalls hrun).2

end

/-- `localtime_s` and `gmtime_s` return `EINVAL` for a time before 1970. -/
def failsBeforeEpoch (_ : Timezone) (timestamp : ℤ) : Option ConversionFailure :=
  if timestamp < 0 then some (.windows 22) else none

lemma exists_newOrThrow : ∃ tf,
    newOrThrow ordinaryTime failsBeforeEpoch (charBytes "at %Qms".toList) .gmtTime 0 =
      some (.ok tf) := by
  have hlt : numSpecifiers (charBytes "at %Qms".toList) < 2 := by decide
  obtain ⟨found, -, hmade⟩ := (new_eq ordinaryTime_lawful _ .gmtTime 0).2 hlt
  obtain ⟨found', hfound', -⟩ := current_of_new hmade
  have hfails : failsBeforeEpoch .gmtTime 0 = none := rfl
  have hnew : newOrThrow ordinaryTime failsBeforeEpoch (charBytes "at %Qms".toList) .gmtTime 0 =
      new ordinaryTime (charBytes "at %Qms".toList) .gmtTime 0 := by
    rw [newOrThrow, hfound', hfails]
  exact ⟨_, hnew.trans hmade⟩

/-- A call for the beginning of a second. -/
def callAt (timestamp : ℤ) : Call := (⟨0, 100, 200⟩, fun _ => 0, timestamp * 1000000000)

/-- With a call for another second between them, two failures do no harm. -/
theorem unharmed_otherSecond : ∃ tf,
    newOrThrow ordinaryTime failsBeforeEpoch (charBytes "at %Qms".toList) .gmtTime 0 =
        some (.ok tf) ∧
      Unharmed ordinaryTime CLib.ascii failsBeforeEpoch tf
        [callAt (-1), callAt 6, callAt (-1)] := by
  obtain ⟨tf, htf⟩ := exists_newOrThrow
  refine ⟨tf, htf, (unharmed_iff _ _ _ htf _).1.mpr ?_⟩
  intro before call next after hcalls u returned _ _
  have hne : (callAt 6).second ≠ (callAt (-1)).second := by decide
  match before, hcalls with
  | [], hcalls =>
      obtain ⟨rfl, hrest⟩ := List.cons.inj hcalls
      obtain ⟨rfl, -⟩ := List.cons.inj hrest
      exact hne
  | [_], hcalls =>
      obtain ⟨rfl, hrest⟩ := List.cons.inj (List.cons.inj hcalls).2
      obtain ⟨rfl, -⟩ := List.cons.inj hrest
      exact hne.symm
  | _ :: _ :: _, hcalls =>
      have hlen := congrArg List.length hcalls
      simp only [List.length_cons, List.length_append, List.length_nil] at hlen
      omega

/-- Without one, the second call prints the text of another second. -/
theorem unharmed_sameSecond : ∃ tf,
    newOrThrow ordinaryTime failsBeforeEpoch (charBytes "at %Qms".toList) .gmtTime 0 =
        some (.ok tf) ∧
      ¬Unharmed ordinaryTime CLib.ascii failsBeforeEpoch tf [callAt (-1), callAt (-1)] := by
  obtain ⟨tf, htf⟩ := exists_newOrThrow
  obtain ⟨found, hsound⟩ := sound_of_newOrThrow htf
  refine ⟨tf, htf, fun hunharmed => ?_⟩
  have hfails : failsBeforeEpoch .gmtTime (callAt (-1)).second ≠ none := by decide
  have hthrows : Throws failsBeforeEpoch tf (callAt (-1)) := by
    obtain ⟨failure, hfailure⟩ := Option.ne_none_iff_exists'.mp hfails
    have hthrow : _ ∧ formatTimestampOrThrow ordinaryTime CLib.ascii _ tf _ = _ :=
      hsound.throw hfailure
    refine ⟨hthrow.1, ?_⟩
    rwa [hsound.current.timezoneType_eq]
  exact hsound.spaced hunharmed [] (callAt (-1)) (callAt (-1)) [] rfl tf [] rfl hthrows rfl

end TimestampFormatter

end ConstexprFmtStr
