import Mathlib.Tactic
import ConstexprFmtStr.Format.Truncation
import ConstexprFmtStr.Lib.Search

/-!
`TimestampFormatter` (`timestamp_formatter.cpp`), with `safe_strftime` (`portability.cpp`).

* `TimeLib`: what is taken from the C library. `safeStrftime`, `safeStrftime_returns_iff`: its
  loop ends exactly if the expansion is not empty.
* `searchQms`, `searchQus`, `searchQns`, `TimestampFormatter.new`: the constructor.
* `TimestampFormatter.formatTimestamp`: the text of a time, in the array of the object.
* `searchAll_eq`: the searches fail exactly if there are two specifiers.
* `textsAt`: the object with the strings of a time. `refresh_eq`, `formatAll_eq`: every call makes
  those of its own time, whatever was formatted before.
-/

namespace ConstexprFmtStr

open Slice Word Search Numeral

/-! ### The C library -/

/-- What the formatter calls. A string is given by its bytes. -/
structure TimeLib where
  /-- `std::tm` -/
  Tm : Type
  /-- `localtime_r` -/
  localtime : ℤ → Tm
  /-- `gmtime_r` -/
  gmtime : ℤ → Tm
  /-- the characters that `strftime` makes of a C string -/
  strftime : List UInt8 → Tm → List UInt8

/-- Expansions are C strings that fit the memory, and are not empty. -/
structure TimeLib.Lawful (lib : TimeLib) : Prop where
  strftime_nil : ∀ tm, lib.strftime [] tm = []
  strftime_ne_nil : ∀ format tm, 0 ∉ format → format ≠ [] → lib.strftime format tm ≠ []
  nul_notMem : ∀ format tm, 0 ∉ lib.strftime format tm
  length_lt : ∀ format tm, (lib.strftime format tm).length < 2 ^ 62

/-- The C string at the front of some bytes. -/
def cString (bs : List UInt8) : List UInt8 := bs.takeWhile (· ≠ 0)

/-- What `strftime` returns for an array of `size` bytes: 0 if the text and its '\0' do not fit. -/
def strftimeResult (text : List UInt8) (size : ℕ) : ℕ :=
  if text.length + 1 ≤ size then text.length else 0

/-- "if strftime fails we will reserve more space": the size that is large enough. -/
def reserveMore (text : List UInt8) : ℕ → ℕ → Option ℕ
  | 0, _ => none
  | fuel + 1, size =>
      if strftimeResult text size = 0 then reserveMore text fuel (size * 2) else some size

/-- `safe_strftime(format_string, time_info_ptr)`, up to the first '\0' of the vector; `none` if it
does not return. -/
def safeStrftime (lib : TimeLib) (formatString : List UInt8) (tm : lib.Tm) :
    Option (List UInt8) :=
  if cString formatString = [] then some [0]
  else
    let text := lib.strftime (cString formatString) tm
    (reserveMore text (text.length + 1) 32).map fun _ => text ++ [0]

/-! ### The constructor -/

/-- `TzError`. -/
structure TzError where
  what : String
  deriving DecidableEq

/-- `Timezone`. -/
inductive Timezone
  | localTime
  | gmtTime
  deriving DecidableEq

/-- `AdditionalSpecifier`. -/
inductive AdditionalSpecifier
  | none
  | qms
  | qus
  | qns
  deriving DecidableEq

/-- `specifier_name`. -/
def specifierName : AdditionalSpecifier → List UInt8
  | .none => []
  | .qms => charBytes "%Qms".toList
  | .qus => charBytes "%Qus".toList
  | .qns => charBytes "%Qns".toList

/-- `specifier_length`. -/
def specifierLength : ℕ := 4

/-- `_additional_format_specifier` and `specifier_begin`, which is 0 here where it is `npos`. -/
abbrev Found := AdditionalSpecifier × ℕ

/-- "look for all three special specifiers": `%Qms`. -/
def searchQms (format : List UInt8) : Except TzError Found :=
  match findFrom (specifierName .qms) format 0 with
  | none => .ok (.none, 0)
  | some searchQms =>
      if (findFrom (specifierName .qms) format (searchQms + specifierLength)).isSome then
        .error ⟨"only one additional specifier can be included"⟩
      else .ok (.qms, searchQms)

/-- One of the other two. -/
def searchNext (specifier : AdditionalSpecifier) (format : List UInt8) (found : Found) :
    Except TzError Found :=
  match findFrom (specifierName specifier) format 0 with
  | none => .ok found
  | some search =>
      if found.1 ≠ .none then
        .error ⟨"format specifiers %Qms, %Qus and %Qns are mutually exclusive"⟩
      else if (findFrom (specifierName specifier) format (search + specifierLength)).isSome then
        .error ⟨"only one additional specifier can be included"⟩
      else .ok (specifier, search)

/-- `%Qus`. -/
def searchQus (format : List UInt8) (found : Found) : Except TzError Found :=
  searchNext .qus format found

/-- `%Qns`. -/
def searchQns (format : List UInt8) (found : Found) : Except TzError Found :=
  searchNext .qns format found

/-- All three searches. -/
def searchAll (format : List UInt8) : Except TzError Found := do
  let found ← searchQms format
  let found ← searchQus format found
  searchQns format found

/-- `TimestampFormatter`, without the array `_formatted_buffer`, which is in the memory. -/
structure TimestampFormatter where
  formatPart1 : List UInt8
  formatPart2 : List UInt8
  preFormattedTs1 : List UInt8
  preFormattedTs2 : List UInt8
  cachedTimestamp : ℤ
  timezoneType : Timezone
  additionalFormatSpecifier : AdditionalSpecifier

/-- `time_info`. -/
def timeInfo (lib : TimeLib) (timezoneType : Timezone) (timestamp : ℤ) : lib.Tm :=
  match timezoneType with
  | .localTime => lib.localtime timestamp
  | .gmtTime => lib.gmtime timestamp

namespace TimestampFormatter

/-- `_pre_formatted_ts_1` and `_pre_formatted_ts_2` for `_cached_timestamp`. -/
def preFormat (lib : TimeLib) (tf : TimestampFormatter) : Option TimestampFormatter := do
  let tm := timeInfo lib tf.timezoneType tf.cachedTimestamp
  let ts1 ← safeStrftime lib tf.formatPart1 tm
  let tf := { tf with preFormattedTs1 := cString ts1 }
  if tf.formatPart2 ≠ [] then do
    let ts2 ← safeStrftime lib tf.formatPart2 tm
    return { tf with preFormattedTs2 := cString ts2 }
  else return tf

/-- The object before its strings are made: "store the whole format string", or its parts. -/
def split (timestampFormatString : List UInt8) (timezoneType : Timezone) (timestamp : ℤ)
    (found : Found) : TimestampFormatter :=
  let specifierEnd := found.2 + specifierLength
  { formatPart1 :=
      if found.1 = .none then timestampFormatString else timestampFormatString.take found.2
    formatPart2 :=
      if found.1 = .none then [] else timestampFormatString.drop specifierEnd
    preFormattedTs1 := []
    preFormattedTs2 := []
    cachedTimestamp := timestamp
    timezoneType := timezoneType
    additionalFormatSpecifier := found.1 }

/-- `TimestampFormatter(timestamp_format_string, timezone_type)`, at the time `now`; `none` if it
does not return. -/
def new (lib : TimeLib) (timestampFormatString : List UInt8) (timezoneType : Timezone) (now : ℤ) :
    Option (Except TzError TimestampFormatter) :=
  match searchAll timestampFormatString with
  | .error e => some (.error e)
  | .ok found => (preFormat lib (split timestampFormatString timezoneType now found)).map .ok

/-! ### Formatting -/

/-- The addresses of `_formatted_buffer` and of the two strings. -/
structure Places where
  buffer : ℕ
  ts1 : ℕ
  ts2 : ℕ

/-- The memory with the two strings, each with its '\0'. -/
def Places.put (places : Places) (mem : Mem) (tf : TimestampFormatter) : Mem :=
  writeAt (writeAt mem places.ts1 (tf.preFormattedTs1 ++ [0])) places.ts2
    (tf.preFormattedTs2 ++ [0])

/-- An `uint32_t` argument. -/
def uintArg (n : ℕ) : Arg where
  type := .int ⟨4, false⟩
  bytes := (IntSpec.intArg n).bytes
  length_bytes := (IntSpec.intArg n).length_bytes

/-- The part that looks at the seconds. -/
def refresh (lib : TimeLib) (tf : TimestampFormatter) (timestampNs : ℤ) :
    Option TimestampFormatter :=
  let timestampSecs := timestampNs.tdiv 1000000000
  if timestampSecs ≠ tf.cachedTimestamp then
    preFormat lib { tf with cachedTimestamp := timestampSecs }
  else some tf

/-- The part that prints, with the strings at `places` of the memory `mem`. -/
def printParts (clib : CLib) (places : Places) (mem : Mem) (tf : TimestampFormatter)
    (extractedNs : ℕ) : Option Mem :=
  let print (format : String) (args : List Arg) : Option Mem :=
    (cfmtStr clib mem places.buffer 100 (format.toList ++ [nul]) args).map fun r => r.2.mem
  match tf.additionalFormatSpecifier with
  | .qms =>
      let extractedMs := extractedNs / 1000000
      if tf.formatPart2 = [] then print "%s%03u" [strArg places.ts1, uintArg extractedMs]
      else print "%s%03u%s" [strArg places.ts1, uintArg extractedMs, strArg places.ts2]
  | .qus =>
      let extractedUs := extractedNs / 1000
      if tf.formatPart2 = [] then print "%s%06u" [strArg places.ts1, uintArg extractedUs]
      else print "%s%06u%s" [strArg places.ts1, uintArg extractedUs, strArg places.ts2]
  | .qns =>
      if tf.formatPart2 = [] then print "%s%09u" [strArg places.ts1, uintArg extractedNs]
      else print "%s%09u%s" [strArg places.ts1, uintArg extractedNs, strArg places.ts2]
  | .none => some mem

/-- `format_timestamp(timestamp_ns)`: the object, and the memory with its array. -/
def formatTimestamp (lib : TimeLib) (clib : CLib) (places : Places) (mem : Mem)
    (tf : TimestampFormatter) (timestampNs : ℤ) : Option (TimestampFormatter × Mem) := do
  let tf ← refresh lib tf timestampNs
  let extractedNs := wrapU 32 (timestampNs - timestampNs.tdiv 1000000000 * 1000000000)
  let mem ← printParts clib places (places.put mem tf) tf extractedNs
  return (tf, mem)

/-- Any calls, one after the other, each with its own memory. -/
def formatAll (lib : TimeLib) (clib : CLib) (tf : TimestampFormatter) :
    List (Places × Mem × ℤ) → Option TimestampFormatter
  | [] => some tf
  | (places, mem, timestampNs) :: calls => do
      let (tf, _) ← formatTimestamp lib clib places mem tf timestampNs
      formatAll lib clib tf calls

end TimestampFormatter

/-! ### `safe_strftime` -/

lemma nul_notMem_cString (bs : List UInt8) : 0 ∉ cString bs := by
  intro h
  have hne := List.mem_takeWhile_imp h
  exact absurd hne (by decide)

lemma cString_append_nul {text : List UInt8} (h : 0 ∉ text) (rest : List UInt8) :
    cString (text ++ 0 :: rest) = text := by
  have hall : ∀ b ∈ text, (decide (b ≠ 0)) = true := by
    intro b hb
    rw [decide_eq_true_eq]
    rintro rfl
    exact h hb
  rw [cString, List.takeWhile_append_of_pos hall, List.takeWhile_cons_of_neg (by simp),
    List.append_nil]

lemma TimeLib.Lawful.strftime_cString_nil {lib : TimeLib} (h : lib.Lawful) (tm : lib.Tm) :
    lib.strftime (cString []) tm = [] := h.strftime_nil tm

/-- The loop ends once the size is large enough. -/
lemma reserveMore_isSome {text : List UInt8} (hne : text ≠ []) {fuel size : ℕ}
    (hfit : text.length + 1 ≤ size * 2 ^ fuel) : (reserveMore text (fuel + 1) size).isSome := by
  have hpos := List.length_pos_iff.mpr hne
  induction fuel generalizing size with
  | zero =>
      rw [pow_zero, mul_one] at hfit
      rw [reserveMore, strftimeResult, if_pos hfit, if_neg (by omega)]
      rfl
  | succ fuel ih =>
      rw [reserveMore]
      split_ifs
      · refine ih ?_
        rwa [mul_assoc, ← pow_succ']
      · rfl

/-- For no text but the empty one it never ends: "strftime fails" for every size. -/
lemma reserveMore_nil (fuel size : ℕ) : reserveMore [] fuel size = none := by
  induction fuel generalizing size with
  | zero => rfl
  | succ fuel ih =>
      have hzero : strftimeResult [] size = 0 := ite_self 0
      rw [reserveMore, if_pos hzero, ih]

section

variable {lib : TimeLib} {format : List UInt8} {tm : lib.Tm}

lemma safeStrftime_of_nil (h : cString format = []) : safeStrftime lib format tm = some [0] := by
  rw [safeStrftime, if_pos h]

lemma safeStrftime_of_ne_nil (hformat : cString format ≠ [])
    (hne : lib.strftime (cString format) tm ≠ []) :
    safeStrftime lib format tm = some (lib.strftime (cString format) tm ++ [0]) := by
  obtain ⟨text, htext⟩ : ∃ text, lib.strftime (cString format) tm = text := ⟨_, rfl⟩
  have hfit : text.length + 1 ≤ 32 * 2 ^ text.length := by
    have hlt := Nat.lt_two_pow_self (n := text.length)
    omega
  rw [htext] at hne
  obtain ⟨size, hsize⟩ := Option.isSome_iff_exists.mp (reserveMore_isSome hne hfit)
  rw [safeStrftime, if_neg hformat]
  simp only [htext, hsize, Option.map_some]

/-- An empty expansion is taken for a failure. -/
lemma safeStrftime_of_empty (hformat : cString format ≠ [])
    (hempty : lib.strftime (cString format) tm = []) : safeStrftime lib format tm = none := by
  rw [safeStrftime, if_neg hformat]
  simp only [hempty, reserveMore_nil, Option.map_none]

/-- It returns, with the whole expansion in front of the first '\0'. -/
def ReturnsExpansion (lib : TimeLib) (format : List UInt8) (tm : lib.Tm) : Prop :=
  ∃ bs, safeStrftime lib format tm = some bs ∧ cString bs = lib.strftime (cString format) tm

lemma returnsExpansion_of_ne_nil (hnul : 0 ∉ lib.strftime (cString format) tm)
    (hformat : cString format ≠ []) (hne : lib.strftime (cString format) tm ≠ []) :
    ReturnsExpansion lib format tm :=
  ⟨_, safeStrftime_of_ne_nil hformat hne, cString_append_nul hnul []⟩

/-- **`safe_strftime`** returns the expansion exactly if there is one; off these, its loop does
not end. -/
theorem safeStrftime_returns_iff (lib : TimeLib) (hnil : ∀ tm, lib.strftime [] tm = [])
    (hnul : ∀ format tm, 0 ∉ lib.strftime format tm) (format : List UInt8) (tm : lib.Tm) :
    (ReturnsExpansion lib format tm ↔
        cString format = [] ∨ lib.strftime (cString format) tm ≠ []) ∧
      (¬ReturnsExpansion lib format tm →
        ∀ fuel, reserveMore (lib.strftime (cString format) tm) fuel 32 = none) := by
  have hiff : ReturnsExpansion lib format tm ↔
      cString format = [] ∨ lib.strftime (cString format) tm ≠ [] := by
    constructor
    · rintro ⟨bs, hbs, -⟩
      by_contra hcond
      obtain ⟨hformat, hempty⟩ := not_or.mp hcond
      rw [safeStrftime_of_empty hformat (not_not.mp hempty)] at hbs
      cases hbs
    · intro hcond
      by_cases hformat : cString format = []
      · refine ⟨[0], safeStrftime_of_nil hformat, ?_⟩
        rw [hformat, hnil]
        rfl
      · exact returnsExpansion_of_ne_nil (hnul _ tm) hformat (hcond.resolve_left hformat)
  refine ⟨hiff, fun hnot fuel => ?_⟩
  have hempty := not_not.mp (not_or.mp (mt hiff.mpr hnot)).2
  rw [hempty, reserveMore_nil]

end

/-- A C library without names for the time zones and the halves of the day. -/
def namelessTime : TimeLib where
  Tm := Unit
  localtime _ := ()
  gmtime _ := ()
  strftime format _ := if format = charBytes "%p".toList then [] else format.filter (· ≠ 0)

lemma namelessTime_nil (tm : namelessTime.Tm) : namelessTime.strftime [] tm = [] := rfl

lemma nul_notMem_namelessTime (format : List UInt8) (tm : namelessTime.Tm) :
    0 ∉ namelessTime.strftime format tm := by
  intro hmem
  simp only [namelessTime] at hmem
  split_ifs at hmem
  · exact absurd hmem List.not_mem_nil
  · exact absurd (List.mem_filter.mp hmem).2 (by decide)

theorem safeStrftime_returns_at :
    (∀ tm, namelessTime.strftime [] tm = []) ∧
      (∀ format tm, 0 ∉ namelessTime.strftime format tm) ∧
      ReturnsExpansion namelessTime (charBytes "at".toList) () :=
  ⟨namelessTime_nil, nul_notMem_namelessTime,
    (safeStrftime_returns_iff namelessTime namelessTime_nil nul_notMem_namelessTime
      (charBytes "at".toList) ()).1.mpr (.inr (by decide))⟩

/-- There `%p` has an empty expansion. -/
theorem safeStrftime_emptyExpansion :
    (∀ tm, namelessTime.strftime [] tm = []) ∧
      (∀ format tm, 0 ∉ namelessTime.strftime format tm) ∧
      ¬ReturnsExpansion namelessTime (charBytes "%p".toList) () := by
  refine ⟨namelessTime_nil, nul_notMem_namelessTime, ?_⟩
  rintro ⟨bs, hbs, -⟩
  have hnone : safeStrftime namelessTime (charBytes "%p".toList) () = none :=
    safeStrftime_of_empty (by decide) (by decide)
  exact absurd (hbs.symm.trans hnone) (by simp)

lemma safeStrftime_eq {lib : TimeLib} (h : lib.Lawful) (format : List UInt8) (tm : lib.Tm) :
    ∃ bs, safeStrftime lib format tm = some bs ∧
      cString bs = lib.strftime (cString format) tm := by
  by_cases hnil : cString format = []
  · rw [safeStrftime_of_nil hnil, hnil, h.strftime_nil]
    exact ⟨_, rfl, rfl⟩
  · exact returnsExpansion_of_ne_nil (h.nul_notMem _ tm) hnil
      (h.strftime_ne_nil _ tm (nul_notMem_cString format) hnil)

/-! ### The searches -/

/-- How often a specifier stands in the pattern. -/
def numPlaces (format : List UInt8) (specifier : AdditionalSpecifier) : ℕ :=
  (places (specifierName specifier) format).card

/-- How often any of the three does. -/
def numSpecifiers (format : List UInt8) : ℕ :=
  numPlaces format .qms + numPlaces format .qus + numPlaces format .qns

lemma unbordered_specifierName {specifier : AdditionalSpecifier} (h : specifier ≠ .none) :
    Unbordered (specifierName specifier) := by
  cases specifier with
  | none => exact absurd rfl h
  | _ => exact ⟨_, _, rfl, by decide⟩

lemma length_specifierName {specifier : AdditionalSpecifier} (h : specifier ≠ .none) :
    (specifierName specifier).length = specifierLength := by
  cases specifier with
  | none => exact absurd rfl h
  | _ => rfl

/-- What the searches for some of the specifiers have found: nothing, or the only place. -/
def Searched (format : List UInt8) (specifiers : List AdditionalSpecifier) (found : Found) :
    Prop :=
  if found.1 = .none then (specifiers.map (numPlaces format)).sum = 0
  else
    (specifiers.map (numPlaces format)).sum = 1 ∧ found.1 ∈ specifiers ∧
      At (specifierName found.1) format found.2

lemma findFrom_zero (word text : List UInt8) : findFrom word text 0 = find word text := by
  simp [findFrom]

/-- **One search** fails exactly if there are two specifiers by now. -/
lemma searchNext_eq {format : List UInt8} {specifiers : List AdditionalSpecifier} {found : Found}
    (h : Searched format specifiers found) {specifier : AdditionalSpecifier}
    (hspec : specifier ≠ .none) :
    (2 ≤ ((specifier :: specifiers).map (numPlaces format)).sum →
        ∃ e, searchNext specifier format found = .error e) ∧
      (((specifier :: specifiers).map (numPlaces format)).sum < 2 →
        ∃ found', searchNext specifier format found = .ok found' ∧
          Searched format (specifier :: specifiers) found') := by
  have hunb := unbordered_specifierName hspec
  have hzero : numPlaces format specifier = 0 ↔ find (specifierName specifier) format = none :=
    card_places_eq_zero hunb.ne_nil
  rw [List.map_cons, List.sum_cons, searchNext, findFrom_zero]
  cases hfind : find (specifierName specifier) format with
  | none =>
      have hnone := hzero.mpr hfind
      rw [hnone, Nat.zero_add]
      refine ⟨fun hge => ?_, fun _ => ⟨found, rfl, ?_⟩⟩
      · rw [Searched] at h
        split_ifs at h <;> omega
      · rw [Searched] at h ⊢
        rw [List.map_cons, List.sum_cons, hnone, Nat.zero_add]
        split_ifs at h ⊢
        · exact h
        · exact ⟨h.1, List.mem_cons_of_mem _ h.2.1, h.2.2⟩
  | some i =>
      have hpos : numPlaces format specifier ≠ 0 := by
        intro hcard
        rw [hzero.mp hcard] at hfind
        exact absurd hfind (by simp)
      have hsecond := isSome_second hunb hfind
      rw [length_specifierName hspec, ← numPlaces] at hsecond
      rw [Searched] at h
      by_cases hfound : found.1 = .none
      · rw [if_pos hfound] at h
        simp only [hfound, ne_eq, not_true, if_false, h, Nat.add_zero]
        constructor
        · intro hge
          rw [if_pos (hsecond.mpr hge)]
          exact ⟨_, rfl⟩
        · intro hlt
          rw [if_neg (fun hsome => by have := hsecond.mp hsome; omega)]
          refine ⟨_, rfl, ?_⟩
          rw [Searched, if_neg hspec, List.map_cons, List.sum_cons, h]
          exact ⟨by omega, List.mem_cons_self, at_of_find hfind⟩
      · rw [if_neg hfound] at h
        simp only [ne_eq, hfound, not_false_iff, if_true]
        refine ⟨fun _ => ⟨_, rfl⟩, fun hlt => ?_⟩
        omega

/-- The first search needs no check for another one. -/
lemma searchQms_eq (format : List UInt8) :
    searchQms format = searchNext .qms format (.none, 0) := by
  rw [searchQms, searchNext]
  cases findFrom (specifierName .qms) format 0 <;> rfl

lemma sum_numPlaces (format : List UInt8) :
    ([AdditionalSpecifier.qns, .qus, .qms].map (numPlaces format)).sum = numSpecifiers format := by
  simp only [List.map_cons, List.map_nil, List.sum_cons, List.sum_nil, numSpecifiers]
  omega

lemma searchQus_bind (format : List UInt8) (found : Found) :
    (Except.ok found >>= fun found => searchQus format found >>= searchQns format) =
      (searchNext .qus format found >>= searchNext .qns format) := rfl

/-- **All searches**: they fail exactly if there are two specifiers. -/
lemma searchAll_eq (format : List UInt8) :
    (2 ≤ numSpecifiers format → ∃ e, searchAll format = .error e) ∧
      (numSpecifiers format < 2 → ∃ found, searchAll format = .ok found ∧
        Searched format [.qns, .qus, .qms] found) := by
  have hstart : Searched format [] (.none, 0) := rfl
  obtain ⟨hfail1, hok1⟩ := searchNext_eq hstart (by decide : AdditionalSpecifier.qms ≠ .none)
  rw [← searchQms_eq] at hfail1 hok1
  rw [searchAll]
  by_cases h1 : 2 ≤ ([AdditionalSpecifier.qms].map (numPlaces format)).sum
  · obtain ⟨e, he⟩ := hfail1 h1
    rw [he]
    simp only [List.map_cons, List.map_nil, List.sum_cons, List.sum_nil] at h1
    refine ⟨fun _ => ⟨e, rfl⟩, fun hlt => ?_⟩
    rw [numSpecifiers] at hlt
    omega
  obtain ⟨found1, he1, hfound1⟩ := hok1 (not_le.mp h1)
  obtain ⟨hfail2, hok2⟩ := searchNext_eq hfound1 (by decide : AdditionalSpecifier.qus ≠ .none)
  rw [he1]
  by_cases h2 : 2 ≤ ([AdditionalSpecifier.qus, .qms].map (numPlaces format)).sum
  · obtain ⟨e, he⟩ := hfail2 h2
    simp only [List.map_cons, List.map_nil, List.sum_cons, List.sum_nil] at h2
    rw [searchQus_bind, he]
    refine ⟨fun _ => ⟨e, rfl⟩, fun hlt => ?_⟩
    rw [numSpecifiers] at hlt
    omega
  obtain ⟨found2, he2, hfound2⟩ := hok2 (not_le.mp h2)
  obtain ⟨hfail3, hok3⟩ := searchNext_eq hfound2 (by decide : AdditionalSpecifier.qns ≠ .none)
  rw [sum_numPlaces] at hfail3 hok3
  rw [searchQus_bind, he2]
  exact ⟨hfail3, hok3⟩

/-! ### The strings -/

namespace TimestampFormatter

variable {lib : TimeLib}

/-- The object with the strings of a time. -/
def textsAt (lib : TimeLib) (tf : TimestampFormatter) (timestamp : ℤ) : TimestampFormatter :=
  let tm := timeInfo lib tf.timezoneType timestamp
  { tf with
    preFormattedTs1 := lib.strftime (cString tf.formatPart1) tm
    preFormattedTs2 := lib.strftime (cString tf.formatPart2) tm
    cachedTimestamp := timestamp }

lemma preFormat_eq (h : lib.Lawful) {tf : TimestampFormatter}
    (hnil : tf.formatPart2 = [] → tf.preFormattedTs2 = []) :
    preFormat lib tf = some (tf.textsAt lib tf.cachedTimestamp) := by
  have htm : ∀ part, ∃ bs, safeStrftime lib part (timeInfo lib tf.timezoneType
      tf.cachedTimestamp) = some bs ∧ cString bs = lib.strftime (cString part)
        (timeInfo lib tf.timezoneType tf.cachedTimestamp) :=
    fun part => safeStrftime_eq h part _
  obtain ⟨bs1, hbs1, hts1⟩ := htm tf.formatPart1
  obtain ⟨bs2, hbs2, hts2⟩ := htm tf.formatPart2
  simp only [preFormat, hbs1, Option.bind_eq_bind, Option.bind_some, hts1, textsAt]
  by_cases hpart : tf.formatPart2 = []
  · simp only [hpart, ne_eq, not_true, if_false, hnil hpart, Option.pure_def,
      h.strftime_cString_nil]
  · simp only [hpart, ne_eq, not_false_iff, if_true, hbs2, Option.bind_some, hts2,
      Option.pure_def]

/-- The constructor throws, or it makes the strings of the current time. -/
lemma new_eq (h : lib.Lawful) (format : List UInt8) (timezoneType : Timezone) (now : ℤ) :
    (2 ≤ numSpecifiers format → ∃ e, new lib format timezoneType now = some (.error e)) ∧
      (numSpecifiers format < 2 → ∃ found, Searched format [.qns, .qus, .qms] found ∧
        new lib format timezoneType now =
          some (.ok ((split format timezoneType now found).textsAt lib now))) := by
  obtain ⟨hfail, hok⟩ := searchAll_eq format
  rw [new]
  constructor
  · intro hge
    obtain ⟨e, he⟩ := hfail hge
    rw [he]
    exact ⟨e, rfl⟩
  · intro hlt
    obtain ⟨found, hfound, hsearched⟩ := hok hlt
    refine ⟨found, hsearched, ?_⟩
    have htexts : preFormat lib (split format timezoneType now found) =
        some ((split format timezoneType now found).textsAt lib now) :=
      preFormat_eq h fun _ => rfl
    rw [hfound]
    simp only [htexts, Option.map_some]

/-- **The cache.** The strings are those of the time, whatever they were those of before. -/
lemma refresh_eq (h : lib.Lawful) (tf : TimestampFormatter) (timestamp timestampNs : ℤ) :
    refresh lib (tf.textsAt lib timestamp) timestampNs =
      some (tf.textsAt lib (timestampNs.tdiv 1000000000)) := by
  have hcached : (tf.textsAt lib timestamp).cachedTimestamp = timestamp := rfl
  simp only [refresh, hcached]
  by_cases heq : timestampNs.tdiv 1000000000 = timestamp
  · rw [if_neg (not_not.mpr heq), heq]
  · rw [if_pos heq, preFormat_eq h]
    · rfl
    · intro hpart
      have hnil : tf.formatPart2 = [] := hpart
      simp only [textsAt, hnil, h.strftime_cString_nil]

/-- **One call** prints with the strings of its own time. -/
lemma formatTimestamp_textsAt (h : lib.Lawful) (clib : CLib) (places : Places) (mem : Mem)
    (tf : TimestampFormatter) (timestamp timestampNs : ℤ) :
    formatTimestamp lib clib places mem (tf.textsAt lib timestamp) timestampNs =
      (printParts clib places (places.put mem (tf.textsAt lib (timestampNs.tdiv 1000000000)))
        (tf.textsAt lib (timestampNs.tdiv 1000000000))
        (wrapU 32 (timestampNs - timestampNs.tdiv 1000000000 * 1000000000))).map fun mem' =>
          (tf.textsAt lib (timestampNs.tdiv 1000000000), mem') := by
  rw [formatTimestamp, refresh_eq h]
  simp only [Option.bind_eq_bind, Option.bind_some, Option.pure_def, Option.map_eq_bind]
  rfl

/-- Every format of the code compiles. -/
lemma printParts_isSome (clib : CLib) (places : Places) (mem : Mem) (tf : TimestampFormatter)
    (extractedNs : ℕ) : ∃ mem', printParts clib places mem tf extractedNs = some mem' := by
  have hprint : ∀ format args d, dealt format args = some d →
      ∃ mem', (cfmtStr clib mem places.buffer 100 format args).map (fun r => r.2.mem) =
        some mem' := by
    intro format args d hd
    rw [cfmtStr, cfmtStrOutbufArg_eq, hd]
    exact ⟨_, rfl⟩
  rw [printParts]
  cases tf.additionalFormatSpecifier with
  | none => exact ⟨mem, rfl⟩
  | _ =>
      by_cases hpart : tf.formatPart2 = []
      · simp only [if_pos hpart]
        exact hprint _ _ _ rfl
      · simp only [if_neg hpart]
        exact hprint _ _ _ rfl

/-- **Any calls.** Whatever was formatted before, the strings are those of some time. -/
lemma formatAll_eq (h : lib.Lawful) (clib : CLib) (tf : TimestampFormatter) (timestamp : ℤ)
    (calls : List (Places × Mem × ℤ)) :
    ∃ timestamp', formatAll lib clib (tf.textsAt lib timestamp) calls =
      some (tf.textsAt lib timestamp') := by
  induction calls generalizing timestamp with
  | nil => exact ⟨timestamp, rfl⟩
  | cons call calls ih =>
      obtain ⟨places, mem, timestampNs⟩ := call
      obtain ⟨mem', hmem'⟩ := printParts_isSome clib places
        (places.put mem (tf.textsAt lib (timestampNs.tdiv 1000000000)))
        (tf.textsAt lib (timestampNs.tdiv 1000000000))
        (wrapU 32 (timestampNs - timestampNs.tdiv 1000000000 * 1000000000))
      obtain ⟨timestamp', hall⟩ := ih (timestampNs.tdiv 1000000000)
      refine ⟨timestamp', ?_⟩
      rw [formatAll, formatTimestamp_textsAt h, hmem']
      exact hall

end TimestampFormatter

end ConstexprFmtStr
