import Mathlib.Tactic
import ConstexprFmtStr.Lib.Word

/-!
`TSCNS`, the clock (`runtime_logger.h`), with its slope as an exact rational.

* `syncTime`: the best of ten readings of the TSC and of the system clock.
* `calibrate`: the loop that waits, on differences that wrap.
* `Tscns.tsc2ns`, `adjustOffset`: conversions that are undefined beyond `int64_t`.
* `runsForward_iff`: the clock runs forward exactly if the system clock was not behind the base
  when the loop ended, and the line through the two samples stays in range.
-/

namespace ConstexprFmtStr

open Word

/-! ### Readings -/

/-- What one `syncTime` reads: `tscs[0]` to `tscs[10]` and `nses[1]` to `nses[10]`. -/
structure Readings where
  tscs : ℕ → ℕ
  nses : ℕ → ℕ

/-- What it returns. -/
structure Sample where
  tsc : ℕ
  ns : ℕ
  deriving DecidableEq

namespace Readings

/-- `tscs[i] - tscs[i - 1]` -/
def gap (r : Readings) (i : ℕ) : ℕ := u64Sub (r.tscs i) (r.tscs (i - 1))

/-- `best`: "we find the try with the mininum tsc diff". -/
def best (r : Readings) : ℕ :=
  (List.range' 2 9).foldl (fun best i => if r.gap i < r.gap best then i else best) 1

/-- `syncTime(tsc, ns)` -/
def syncTime (r : Readings) : Sample where
  tsc := u64Add (r.tscs r.best) (r.tscs (r.best - 1)) / 2
  ns := r.nses r.best

/-- All readings are `uint64_t`, and the TSC strictly increases. -/
structure Valid (r : Readings) : Prop where
  tscs_lt_succ : ∀ i < 10, r.tscs i < r.tscs (i + 1)
  tscs_lt : r.tscs 10 < 2 ^ 64
  nses_lt : ∀ i, 1 ≤ i → i ≤ 10 → r.nses i < 2 ^ 64

end Readings

/-- The rounds of readings one after the other; the TSC strictly increases from each to the next. -/
structure Ascending (rounds : List Readings) : Prop where
  valid : ∀ r ∈ rounds, r.Valid
  pairwise : rounds.Pairwise fun r r' => r.tscs 10 < r'.tscs 0

/-! ### The clock -/

/-- `TSCNS` -/
structure Tscns where
  tscGhzInv : ℚ
  nsOffset : ℕ
  baseTsc : ℕ
  baseNs : ℕ

/-- `(int64_t)x`: it truncates, and is undefined out of range. -/
def toInt64 (x : ℚ) : Option ℤ :=
  let t := if 0 ≤ x then ⌊x⌋ else ⌈x⌉
  if -2 ^ 63 ≤ t ∧ t < 2 ^ 63 then some t else none

/-- The loop of `calibrate(min_wait_ns)`, for the rounds it reads: `delayed_tsc` and `delayed_ns`
if it ends. -/
def calibrate (base : Sample) (minWaitNs : ℕ) : List Readings → Option Sample
  | [] => none
  | r :: rounds =>
      let delayed := r.syncTime
      if u64Sub delayed.ns base.ns < minWaitNs then calibrate base minWaitNs rounds
      else some delayed

/-- `tsc_ghz_inv` after it. -/
def slope (base delayed : Sample) : ℚ :=
  (wrapS 64 ((delayed.ns : ℤ) - base.ns) : ℚ) / (wrapS 64 ((delayed.tsc : ℤ) - base.tsc) : ℚ)

/-- `adjustOffset()` -/
def adjustOffset (base : Sample) (tscGhzInv : ℚ) : Option Tscns :=
  (toInt64 (wrapS 64 base.tsc * tscGhzInv)).map fun t =>
    { tscGhzInv := tscGhzInv
      nsOffset := wrapU 64 (base.ns - t)
      baseTsc := base.tsc
      baseNs := base.ns }

/-- `tsc2ns(tsc)` -/
def Tscns.tsc2ns (clock : Tscns) (tsc : ℕ) : Option ℕ :=
  (toInt64 (wrapS 64 tsc * clock.tscGhzInv)).map fun t => wrapU 64 (clock.nsOffset + t)

/-- On all times of the TSC below `2 ^ 63` it is defined, and does not decrease. -/
def Tscns.Monotone (clock : Tscns) : Prop :=
  ∀ tsc tsc', tsc ≤ tsc' → tsc' < 2 ^ 63 →
    ∃ ns ns', clock.tsc2ns tsc = some ns ∧ clock.tsc2ns tsc' = some ns' ∧ ns ≤ ns'

/-- The wait was long enough, the slope is positive, and the clock does not go back. -/
structure RunsForward (minWaitNs : ℕ) (base delayed : Sample) : Prop where
  waited : base.ns + minWaitNs ≤ delayed.ns
  slope_pos : 0 < slope base delayed
  monotone : ∃ clock, adjustOffset base (slope base delayed) = some clock ∧ clock.Monotone

/-- The system clock is not behind the base; both differences have one sign as `int64_t`; and the
line through the samples stays in the range of the conversions, for all times of the TSC below
`2 ^ 63`. -/
structure InRange (base delayed : Sample) : Prop where
  ns_le : base.ns ≤ delayed.ns
  signs : base.ns < delayed.ns ∧ delayed.ns - base.ns < 2 ^ 63 ∧ base.tsc < delayed.tsc ∨
    2 ^ 63 ≤ delayed.ns - base.ns ∧ delayed.tsc < base.tsc
  rise_lt : ⌊(2 ^ 63 - 1 : ℚ) * slope base delayed⌋ < 2 ^ 63
  start_nonneg : ⌊(base.tsc : ℚ) * slope base delayed⌋ ≤ base.ns
  end_lt : base.ns - ⌊(base.tsc : ℚ) * slope base delayed⌋ +
    ⌊(2 ^ 63 - 1 : ℚ) * slope base delayed⌋ < 2 ^ 64

/-! ### The samples -/

namespace Readings

/-- What a search for the best finds is where it began, or one of those it has looked at. -/
lemma foldl_best_mem (p : ℕ → ℕ → Prop) [DecidableRel p] (first : ℕ) (others : List ℕ) :
    others.foldl (fun best i => if p i best then i else best) first ∈ first :: others := by
  induction others generalizing first with
  | nil => exact List.mem_cons_self
  | cons i others ih =>
      rw [List.foldl_cons]
      split_ifs
      · exact List.mem_cons_of_mem _ (ih i)
      · rcases List.mem_cons.mp (ih first) with heq | hmem
        · exact List.mem_cons.mpr (.inl heq)
        · exact List.mem_cons_of_mem _ (List.mem_cons_of_mem _ hmem)

lemma best_bounds (r : Readings) : 1 ≤ r.best ∧ r.best ≤ 10 := by
  have hmem := foldl_best_mem (fun i best => r.gap i < r.gap best) 1 (List.range' 2 9)
  rw [← best, List.mem_cons, List.mem_range'_1] at hmem
  omega

lemma tsc_syncTime_lt (r : Readings) : r.syncTime.tsc < 2 ^ 63 := by
  have hlt : u64Add (r.tscs r.best) (r.tscs (r.best - 1)) < 2 ^ 64 := wrapU_lt 64 _
  have htsc : r.syncTime.tsc = u64Add (r.tscs r.best) (r.tscs (r.best - 1)) / 2 := rfl
  omega

lemma Valid.ns_syncTime_lt {r : Readings} (h : r.Valid) : r.syncTime.ns < 2 ^ 64 :=
  h.nses_lt _ r.best_bounds.1 r.best_bounds.2

lemma Valid.tscs_mono {r : Readings} (h : r.Valid) {i j : ℕ} (hij : i ≤ j) (hj : j ≤ 10) :
    r.tscs i ≤ r.tscs j := by
  induction j, hij using Nat.le_induction with
  | base => exact le_rfl
  | succ j _ ih => exact (ih (by omega)).trans (h.tscs_lt_succ j (by omega)).le

/-- Without a carry, the sample is between the two readings of the TSC. -/
lemma Valid.tsc_syncTime_bounds {r : Readings} (h : r.Valid) (hlt : r.tscs 10 < 2 ^ 63) :
    r.tscs 0 ≤ r.syncTime.tsc ∧ r.syncTime.tsc < r.tscs 10 := by
  obtain ⟨hlo, hhi⟩ := r.best_bounds
  have hfirst := h.tscs_mono (Nat.zero_le (r.best - 1)) (by omega)
  have hlast := h.tscs_mono hhi le_rfl
  have hstep := h.tscs_lt_succ (r.best - 1) (by omega)
  rw [Nat.sub_add_cancel hlo] at hstep
  have htsc : r.syncTime.tsc = (r.tscs r.best + r.tscs (r.best - 1)) / 2 := by
    rw [syncTime, u64Add_of_lt (by omega)]
  omega

end Readings

/-- The loop ends with a round whose difference, as it wraps, is large enough. -/
lemma calibrate_eq_some {base delayed : Sample} {minWaitNs : ℕ} {rounds : List Readings}
    (h : calibrate base minWaitNs rounds = some delayed) :
    ∃ r ∈ rounds, r.syncTime = delayed ∧ minWaitNs ≤ u64Sub delayed.ns base.ns := by
  induction rounds with
  | nil => exact absurd h nofun
  | cons r rounds ih =>
      rw [calibrate] at h
      split_ifs at h with hwait
      · obtain ⟨r', hmem, hr'⟩ := ih h
        exact ⟨r', List.mem_cons_of_mem _ hmem, hr'⟩
      · obtain rfl := Option.some.inj h
        exact ⟨r, List.mem_cons_self, rfl, not_lt.mp hwait⟩

/-! ### Conversions -/

lemma toInt64_of_nonneg {x : ℚ} (h : 0 ≤ x) :
    toInt64 x = if ⌊x⌋ < 2 ^ 63 then some ⌊x⌋ else none := by
  have hfloor := Int.floor_nonneg.mpr h
  have hlow : -2 ^ 63 ≤ ⌊x⌋ := by omega
  simp only [toInt64, if_pos h, hlow, true_and]

lemma wrapS_tsc {tsc : ℕ} (h : tsc < 2 ^ 63) : wrapS 64 tsc = tsc :=
  wrapS_of_bounds (by omega) (by omega)

section

variable {clock : Tscns} (hslope : 0 ≤ clock.tscGhzInv)

include hslope

/-- The conversion of a time of the TSC. -/
lemma Tscns.tsc2ns_eq {tsc : ℕ} (h : tsc < 2 ^ 63) :
    clock.tsc2ns tsc = if ⌊tsc * clock.tscGhzInv⌋ < 2 ^ 63 then
      some (wrapU 64 (clock.nsOffset + ⌊tsc * clock.tscGhzInv⌋)) else none := by
  have hnonneg : 0 ≤ (tsc : ℚ) * clock.tscGhzInv := mul_nonneg (Nat.cast_nonneg _) hslope
  rw [tsc2ns, wrapS_tsc h, Int.cast_natCast, toInt64_of_nonneg hnonneg]
  split_ifs <;> rfl

/-- A greater time is not converted to less. -/
lemma Tscns.floor_le_floor {tsc tsc' : ℕ} (h : tsc ≤ tsc') :
    ⌊tsc * clock.tscGhzInv⌋ ≤ ⌊tsc' * clock.tscGhzInv⌋ :=
  Int.floor_le_floor (mul_le_mul_of_nonneg_right (Nat.cast_le.mpr h) hslope)

/-- **The clock** does not go back exactly if the last of the times is in range. -/
lemma Tscns.monotone_iff (hoffset : clock.nsOffset < 2 ^ 64) :
    clock.Monotone ↔ ⌊(2 ^ 63 - 1 : ℚ) * clock.tscGhzInv⌋ < 2 ^ 63 ∧
      clock.nsOffset + ⌊(2 ^ 63 - 1 : ℚ) * clock.tscGhzInv⌋ < 2 ^ 64 := by
  obtain ⟨last, hlast⟩ : ∃ last : ℕ, last = 2 ^ 63 - 1 := ⟨_, rfl⟩
  have hcast : (2 ^ 63 - 1 : ℚ) = last := by
    rw [hlast]
    norm_num
  have hle : last < 2 ^ 63 := by omega
  have hzero : ⌊((0 : ℕ) : ℚ) * clock.tscGhzInv⌋ = 0 := by
    rw [Nat.cast_zero, zero_mul, Int.floor_zero]
  have hpos : 0 ≤ ⌊(last : ℚ) * clock.tscGhzInv⌋ :=
    Int.floor_nonneg.mpr (mul_nonneg (Nat.cast_nonneg _) hslope)
  rw [hcast]
  constructor
  · intro h
    obtain ⟨ns, ns', hns, hns', hmono⟩ := h 0 last (Nat.zero_le _) hle
    rw [tsc2ns_eq hslope (by norm_num), hzero, if_pos (by norm_num), add_zero,
      wrapU_natCast hoffset] at hns
    rw [tsc2ns_eq hslope hle] at hns'
    split_ifs at hns' with hrise
    · obtain rfl := Option.some.inj hns
      obtain rfl := Option.some.inj hns'
      refine ⟨hrise, ?_⟩
      -- otherwise the sum wraps once, and falls below the offset
      by_contra hover
      have hwrap := natCast_wrapU 64 (clock.nsOffset + ⌊(last : ℚ) * clock.tscGhzInv⌋)
      omega
  · rintro ⟨hrise, hend⟩ tsc tsc' htsc htsc'
    have hfloor := floor_le_floor hslope htsc
    have hfloor' := floor_le_floor hslope (show tsc' ≤ last by omega)
    have hnonneg : 0 ≤ ⌊(tsc : ℚ) * clock.tscGhzInv⌋ :=
      Int.floor_nonneg.mpr (mul_nonneg (Nat.cast_nonneg _) hslope)
    rw [tsc2ns_eq hslope (by omega), if_pos (by omega), tsc2ns_eq hslope htsc', if_pos (by omega)]
    refine ⟨_, _, rfl, rfl, ?_⟩
    rw [wrapU_of_lt (by omega) (by omega), wrapU_of_lt (by omega) (by omega)]
    omega

end

/-- The offset, for a slope that is not negative. -/
lemma adjustOffset_eq {base : Sample} (hbase : base.tsc < 2 ^ 63) {tscGhzInv : ℚ}
    (hslope : 0 ≤ tscGhzInv) :
    adjustOffset base tscGhzInv = if ⌊base.tsc * tscGhzInv⌋ < 2 ^ 63 then
      some { tscGhzInv := tscGhzInv
             nsOffset := wrapU 64 (base.ns - ⌊base.tsc * tscGhzInv⌋)
             baseTsc := base.tsc
             baseNs := base.ns } else none := by
  have hnonneg : 0 ≤ (base.tsc : ℚ) * tscGhzInv := mul_nonneg (Nat.cast_nonneg _) hslope
  rw [adjustOffset, wrapS_tsc hbase, Int.cast_natCast, toInt64_of_nonneg hnonneg]
  split_ifs <;> rfl

/-! ### The slope -/

section

variable {base delayed : Sample} (hbase : base.tsc < 2 ^ 63) (hdelayed : delayed.tsc < 2 ^ 63)

include hbase hdelayed

lemma slope_pos_iff (hle : base.ns ≤ delayed.ns) (hlt : delayed.ns < 2 ^ 64) :
    0 < slope base delayed ↔
      base.ns < delayed.ns ∧ delayed.ns - base.ns < 2 ^ 63 ∧ base.tsc < delayed.tsc ∨
        2 ^ 63 ≤ delayed.ns - base.ns ∧ delayed.tsc < base.tsc := by
  have htsc : wrapS 64 ((delayed.tsc : ℤ) - base.tsc) = (delayed.tsc : ℤ) - base.tsc :=
    wrapS_of_bounds (by omega) (by omega)
  rw [slope, htsc, div_pos_iff]
  simp only [Int.cast_pos, Int.cast_lt_zero]
  rcases Nat.lt_or_ge (delayed.ns - base.ns) (2 ^ 63) with hnear | hfar
  · have hns : wrapS 64 ((delayed.ns : ℤ) - base.ns) = (delayed.ns : ℤ) - base.ns :=
      wrapS_of_bounds (by omega) (by omega)
    rw [hns]
    omega
  · have hns : wrapS 64 ((delayed.ns : ℤ) - base.ns) =
        (delayed.ns : ℤ) - base.ns - 2 ^ 64 := by
      rw [← wrapS_of_bounds (w := 64) (x := (delayed.ns : ℤ) - base.ns - 2 ^ 64) (by omega)
        (by omega)]
      exact wrapS_congr (by omega)
    rw [hns]
    omega

/-- **The calibration**, once the loop has ended. -/
lemma runsForward_iff_inRange {minWaitNs : ℕ} (hns : base.ns < 2 ^ 64) (hns' : delayed.ns < 2 ^ 64)
    (hwait : minWaitNs ≤ u64Sub delayed.ns base.ns) :
    RunsForward minWaitNs base delayed ↔ InRange base delayed := by
  have hfloor (hslope : 0 ≤ slope base delayed) : 0 ≤ ⌊base.tsc * slope base delayed⌋ ∧
      ⌊base.tsc * slope base delayed⌋ ≤ ⌊(2 ^ 63 - 1 : ℚ) * slope base delayed⌋ := by
    refine ⟨Int.floor_nonneg.mpr (mul_nonneg (Nat.cast_nonneg _) hslope), ?_⟩
    refine Int.floor_le_floor (mul_le_mul_of_nonneg_right ?_ hslope)
    have hcast : ((base.tsc + 1 : ℕ) : ℚ) ≤ (2 ^ 63 : ℕ) := Nat.cast_le.mpr hbase
    push_cast at hcast
    linarith
  constructor
  · rintro ⟨hwaited, hslope, clock, hclock, hmono⟩
    have hle : base.ns ≤ delayed.ns := by omega
    have hbaseFloor := hfloor hslope.le
    rw [adjustOffset_eq hbase hslope.le] at hclock
    split_ifs at hclock with hconv
    obtain rfl := Option.some.inj hclock
    obtain ⟨hrise, hend⟩ := (Tscns.monotone_iff hslope.le (wrapU_lt 64 _)).mp hmono
    have hwrap := natCast_wrapU 64 (base.ns - ⌊base.tsc * slope base delayed⌋)
    dsimp only at hrise hend
    -- an offset below 0 wraps, and the last time of the TSC brings it back
    have hstart : ⌊base.tsc * slope base delayed⌋ ≤ base.ns := by
      by_contra hneg
      omega
    exact ⟨hle, (slope_pos_iff hbase hdelayed hle hns').mp hslope, hrise, hstart, by omega⟩
  · rintro ⟨hle, hsigns, hrise, hstart, hend⟩
    have hslope := (slope_pos_iff hbase hdelayed hle hns').mpr hsigns
    have hbaseFloor := hfloor hslope.le
    rw [u64Sub_of_le hle hns'] at hwait
    have hclock := adjustOffset_eq hbase hslope.le
    rw [if_pos (by omega), wrapU_of_lt (by omega) (by omega)] at hclock
    refine ⟨by omega, hslope, _, hclock, ?_⟩
    refine (Tscns.monotone_iff hslope.le (by dsimp only; omega)).mpr ⟨hrise, ?_⟩
    dsimp only
    omega

end

/-- **`calibrate`** leaves a clock that runs forward exactly if its samples are in range; if no
reading of the TSC has its highest bit set, only the system clock can put them out of it. -/
theorem runsForward_iff {first : Readings} {rounds : List Readings} {minWaitNs : ℕ}
    {delayed : Sample} (hreadings : Ascending (first :: rounds))
    (hreturns : calibrate first.syncTime minWaitNs rounds = some delayed) :
    (RunsForward minWaitNs first.syncTime delayed ↔ InRange first.syncTime delayed) ∧
      ((∀ r ∈ first :: rounds, r.tscs 10 < 2 ^ 63) → first.syncTime.tsc < delayed.tsc) := by
  obtain ⟨r, hmem, rfl, hwait⟩ := calibrate_eq_some hreturns
  have hfirst := hreadings.valid first List.mem_cons_self
  have hr := hreadings.valid r (List.mem_cons_of_mem _ hmem)
  refine ⟨runsForward_iff_inRange first.tsc_syncTime_lt r.tsc_syncTime_lt hfirst.ns_syncTime_lt
    hr.ns_syncTime_lt hwait, fun hlt => ?_⟩
  have hbefore := List.rel_of_pairwise_cons hreadings.pairwise hmem
  have hlow := hfirst.tsc_syncTime_bounds (hlt first List.mem_cons_self)
  have hhigh := hr.tsc_syncTime_bounds (hlt r (List.mem_cons_of_mem _ hmem))
  omega

/-- A round in which the TSC goes by ones, and the system clock stands still. -/
def readingsAt (tsc ns : ℕ) : Readings where
  tscs i := tsc + i
  nses _ := ns

lemma readingsAt_valid {tsc ns : ℕ} (htsc : tsc + 10 < 2 ^ 64) (hns : ns < 2 ^ 64) :
    (readingsAt tsc ns).Valid where
  tscs_lt_succ i _ := Nat.lt_succ_self (tsc + i)
  tscs_lt := htsc
  nses_lt _ _ _ := hns

/-- A calibration that waits for one round. -/
theorem runsForward_waited :
    calibrate (readingsAt 0 (10 ^ 18)).syncTime 10000000
          [readingsAt 1000 (10 ^ 18 + 1000), readingsAt (10 ^ 8) (10 ^ 18 + 10 ^ 8)] =
        some ⟨10 ^ 8, 10 ^ 18 + 10 ^ 8⟩ ∧
      RunsForward 10000000 (readingsAt 0 (10 ^ 18)).syncTime ⟨10 ^ 8, 10 ^ 18 + 10 ^ 8⟩ := by
  have hreadings : Ascending [readingsAt 0 (10 ^ 18), readingsAt 1000 (10 ^ 18 + 1000),
      readingsAt (10 ^ 8) (10 ^ 18 + 10 ^ 8)] := by
    refine ⟨?_, by simp [readingsAt]⟩
    simp only [List.mem_cons, List.not_mem_nil, or_false, forall_eq_or_imp, forall_eq]
    exact ⟨readingsAt_valid (by norm_num) (by norm_num),
      readingsAt_valid (by norm_num) (by norm_num), readingsAt_valid (by norm_num) (by norm_num)⟩
  have hreturns : calibrate (readingsAt 0 (10 ^ 18)).syncTime 10000000
      [readingsAt 1000 (10 ^ 18 + 1000), readingsAt (10 ^ 8) (10 ^ 18 + 10 ^ 8)] =
        some ⟨10 ^ 8, 10 ^ 18 + 10 ^ 8⟩ := by decide
  have hbase : (readingsAt 0 (10 ^ 18)).syncTime = ⟨0, 10 ^ 18⟩ := by decide
  have hslope : slope ⟨0, 10 ^ 18⟩ ⟨10 ^ 8, 10 ^ 18 + 10 ^ 8⟩ = 1 := by
    have hwrap : wrapS 64 (100000000 : ℤ) = 100000000 := by decide
    norm_num [slope, hwrap]
  refine ⟨hreturns, (runsForward_iff hreadings hreturns).1.mpr ?_⟩
  rw [hbase]
  constructor
  · norm_num
  · norm_num
  · rw [hslope]
    norm_num
  · rw [hslope]
    norm_num
  · rw [hslope]
    norm_num

/-- The system clock is set back by one nanosecond: the difference wraps, the loop ends, and the
slope is negative. -/
theorem runsForward_steppedBack :
    Ascending [readingsAt 0 1000000000, readingsAt 100 999999999] ∧
      calibrate (readingsAt 0 1000000000).syncTime 10000000 [readingsAt 100 999999999] =
        some ⟨100, 999999999⟩ ∧
      slope (readingsAt 0 1000000000).syncTime ⟨100, 999999999⟩ < 0 ∧
      ¬RunsForward 10000000 (readingsAt 0 1000000000).syncTime ⟨100, 999999999⟩ := by
  have hbase : (readingsAt 0 1000000000).syncTime = ⟨0, 1000000000⟩ := by decide
  refine ⟨⟨?_, by simp [readingsAt]⟩, by decide, ?_, fun h => ?_⟩
  · simp only [List.mem_cons, List.not_mem_nil, or_false, forall_eq_or_imp, forall_eq]
    exact ⟨readingsAt_valid (by norm_num) (by norm_num),
      readingsAt_valid (by norm_num) (by norm_num)⟩
  · have hns : wrapS 64 (-1 : ℤ) = -1 := by decide
    have htsc : wrapS 64 (100 : ℤ) = 100 := by decide
    rw [hbase]
    norm_num [slope, hns, htsc]
  · have hwaited := h.waited
    rw [hbase] at hwaited
    norm_num at hwaited

end ConstexprFmtStr
