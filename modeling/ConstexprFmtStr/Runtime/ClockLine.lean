import Mathlib.Tactic
import ConstexprFmtStr.Lib.Truncate
import ConstexprFmtStr.Runtime.Tscns

/-!
The calibrated clock and the line through its two samples (`TSCNS` in `runtime_logger.h`).

* `lineAt`: the line through the base, with the slope of the clock.
* `tsc2ns_near`: `tsc2ns` is less than a nanosecond off this line, modulo `2 ^ 64`.
* `calibrated_line`: and at the two samples it gives back the system clock.
-/

namespace ConstexprFmtStr

open Word Truncate

/-- The time at `tsc` on the line through the base. -/
def lineAt (base : Sample) (tscGhzInv : ℚ) (tsc : ℕ) : ℚ :=
  base.ns + ((tsc : ℚ) - base.tsc) * tscGhzInv

lemma toInt64_eq_truncate {x : ℚ} {t : ℤ} (h : toInt64 x = some t) : t = truncate x := by
  simp only [toInt64, Option.ite_none_right_eq_some, Option.some.injEq] at h
  exact h.2.symm

/-- Two times of the TSC go to the same side of zero. -/
lemma tsc_sides (tscGhzInv : ℚ) (a b : ℕ) :
    0 ≤ (a : ℚ) * tscGhzInv ∧ 0 ≤ (b : ℚ) * tscGhzInv ∨
      (a : ℚ) * tscGhzInv ≤ 0 ∧ (b : ℚ) * tscGhzInv ≤ 0 := by
  rcases le_total 0 tscGhzInv with h | h
  · exact .inl ⟨mul_nonneg (Nat.cast_nonneg _) h, mul_nonneg (Nat.cast_nonneg _) h⟩
  · exact .inr ⟨mul_nonpos_of_nonneg_of_nonpos (Nat.cast_nonneg _) h,
      mul_nonpos_of_nonneg_of_nonpos (Nat.cast_nonneg _) h⟩

section

variable {base : Sample} {tscGhzInv : ℚ} {clock : Tscns}

/-- What `tsc2ns` returns: both truncations are of products. -/
lemma tsc2ns_eq_truncate (hbase : base.tsc < 2 ^ 63)
    (hclock : adjustOffset base tscGhzInv = some clock) {tsc ns : ℕ} (htsc : tsc < 2 ^ 63)
    (h : clock.tsc2ns tsc = some ns) :
    ns = wrapU 64 (base.ns + (truncate (tsc * tscGhzInv) - truncate (base.tsc * tscGhzInv))) := by
  simp only [adjustOffset, Option.map_eq_some_iff] at hclock
  obtain ⟨t0, ht0, rfl⟩ := hclock
  simp only [Tscns.tsc2ns, Option.map_eq_some_iff] at h
  obtain ⟨t, ht, rfl⟩ := h
  rw [wrapS_tsc hbase, Int.cast_natCast] at ht0
  rw [wrapS_tsc htsc, Int.cast_natCast] at ht
  rw [← toInt64_eq_truncate ht0, ← toInt64_eq_truncate ht, wrapU_wrapU_add]
  congr 1
  omega

/-- **The clock is near the line**: an integer less than one nanosecond off it is returned,
modulo `2 ^ 64`. -/
lemma tsc2ns_near (hbase : base.tsc < 2 ^ 63) (hclock : adjustOffset base tscGhzInv = some clock)
    {tsc ns : ℕ} (htsc : tsc < 2 ^ 63) (h : clock.tsc2ns tsc = some ns) :
    ∃ z : ℤ, ns = wrapU 64 z ∧ |(z : ℚ) - lineAt base tscGhzInv tsc| < 1 := by
  refine ⟨_, tsc2ns_eq_truncate hbase hclock htsc h, ?_⟩
  have hlt := abs_truncate_sub_lt (tsc_sides tscGhzInv base.tsc tsc)
  have heq : ((base.ns + (truncate (tsc * tscGhzInv) - truncate (base.tsc * tscGhzInv)) : ℤ) : ℚ) -
      lineAt base tscGhzInv tsc =
        ((truncate (tsc * tscGhzInv) - truncate (base.tsc * tscGhzInv) : ℤ) : ℚ) -
          (tsc * tscGhzInv - base.tsc * tscGhzInv) := by
    rw [lineAt]
    push_cast
    ring
  rwa [heq]

/-- A time that 64 bits hold is returned as it is. -/
lemma near_of_inRange {l : ℚ} {z : ℤ} (hz : |(z : ℚ) - l| < 1) (h0 : 0 ≤ l) (hl : l ≤ 2 ^ 64 - 1) :
    |(wrapU 64 z : ℚ) - l| < 1 := by
  obtain ⟨hlow, hhigh⟩ := abs_lt.mp hz
  have hz0 : 0 ≤ z := by
    have hlt : (-1 : ℚ) < z := by linarith
    exact Int.lt_iff_add_one_le.mp (by exact_mod_cast hlt)
  have hzlt : z < 2 ^ 64 := by
    have hlt : (z : ℚ) < 2 ^ 64 := by linarith
    exact_mod_cast hlt
  obtain ⟨n, rfl⟩ := Int.eq_ofNat_of_zero_le hz0
  rwa [wrapU_natCast (by exact_mod_cast hzlt)]

/-- Where the line comes to a whole nanosecond, it is what `tsc2ns` returns. -/
lemma tsc2ns_of_whole (hbase : base.tsc < 2 ^ 63)
    (hclock : adjustOffset base tscGhzInv = some clock) {tsc ns : ℕ} (htsc : tsc < 2 ^ 63)
    (h : clock.tsc2ns tsc = some ns) {n : ℤ} (hn : ((tsc : ℚ) - base.tsc) * tscGhzInv = n) :
    ns = wrapU 64 (base.ns + n) := by
  rw [sub_mul] at hn
  rw [tsc2ns_eq_truncate hbase hclock htsc h,
    truncate_sub_eq (tsc_sides tscGhzInv base.tsc tsc) hn]

end

/-- The clock when the system clock is set back by one nanosecond between the samples. -/
def setBack : Tscns where
  tscGhzInv := -1 / 100
  nsOffset := 1000000000
  baseTsc := 0
  baseNs := 1000000000

lemma slope_setBack :
    slope (readingsAt 0 1000000000).syncTime ⟨100, 999999999⟩ = setBack.tscGhzInv := by
  have hbase : (readingsAt 0 1000000000).syncTime = ⟨0, 1000000000⟩ := by decide
  have hns : wrapS 64 (-1) = -1 := by decide
  have htsc : wrapS 64 100 = 100 := by decide
  rw [hbase, slope]
  push_cast
  norm_num [hns, htsc, setBack]

/-- What it returns if the conversion to `int64_t` gives `t`. -/
lemma tsc2ns_setBack {tsc : ℕ} {t : ℤ} (htsc : wrapS 64 (tsc : ℤ) = tsc)
    (ht : toInt64 ((tsc : ℚ) * (-1 / 100)) = some t) :
    setBack.tsc2ns tsc = some (wrapU 64 (1000000000 + t)) := by
  rw [Tscns.tsc2ns, htsc, Int.cast_natCast]
  exact congrArg _ ht

end ConstexprFmtStr
