import Mathlib.Tactic
import ConstexprFmtStr.Lib.Numeral

/-!
Numerals with a point, and the numbers that are rounded to them.

* `pointed digit point r p always m`: `m` with the last `p` of its digits in base `r` behind the
  point. `pointed_mul_pow`: more digits behind the point are zeros.
* `Rounds x m`: `m` is `x` rounded to the nearest integer, which is `roundEven x`.
* `RoundsUp r p x`: the rounding carries past the one digit in front of the point.
-/

namespace Pointed

open Numeral

/-! ### Digits behind a point -/

section

variable {α : Type*}

/-- `m` with `p` digits behind the point; if there are none, the point stands only if it is to
stand `always`. -/
def pointed (digit : ℕ → α) (point : α) (r p : ℕ) (always : Bool) (m : ℕ) : List α :=
  shown digit r (m / r ^ p) ++
    if p = 0 then if always then [point] else [] else point :: (fixed r p m).map digit

/-- More digits of a fixed number of digits. -/
lemma fixed_mul_pow {r : ℕ} (hr : 0 < r) (p k m : ℕ) :
    fixed r (p + k) (m * r ^ k) = fixed r p m ++ List.replicate k 0 := by
  induction k with
  | zero => simp
  | succ k ih =>
      have hdiv : m * r ^ (k + 1) / r = m * r ^ k := by
        rw [pow_succ, ← mul_assoc, Nat.mul_div_cancel _ hr]
      have hmod : m * r ^ (k + 1) % r = 0 := by
        rw [pow_succ, ← mul_assoc, Nat.mul_mod_left]
      rw [← Nat.add_assoc, fixed, hdiv, hmod, ih, List.append_assoc, ← List.replicate_succ']

lemma lt_of_mem_fixed {r : ℕ} (hr : 0 < r) {p m i : ℕ} (hi : i ∈ fixed r p m) : i < r := by
  induction p generalizing m with
  | zero => exact absurd hi List.not_mem_nil
  | succ p ih =>
      rcases List.mem_append.mp hi with hi | hi
      · exact ih hi
      · rw [List.mem_singleton.mp hi]
        exact Nat.mod_lt m hr

variable (digit : ℕ → α) (point : α)

lemma mem_pointed {r : ℕ} (hr : 1 < r) {p m : ℕ} {always : Bool} {c : α}
    (hc : c ∈ pointed digit point r p always m) : c = point ∨ ∃ i < r, c = digit i := by
  rcases List.mem_append.mp hc with hc | hc
  · exact .inr (mem_shown hr hc)
  · split_ifs at hc
    · exact .inl (List.mem_singleton.mp hc)
    · exact absurd hc List.not_mem_nil
    · rcases List.mem_cons.mp hc with rfl | hc
      · exact .inl rfl
      · obtain ⟨i, hi, rfl⟩ := List.mem_map.mp hc
        exact .inr ⟨i, lt_of_mem_fixed (by omega) hi, rfl⟩

/-- **More digits** behind the point are zeros. -/
lemma pointed_mul_pow {r p : ℕ} (hr : 0 < r) (hp : 0 < p) (always : Bool) (k m : ℕ) :
    pointed digit point r (p + k) always (m * r ^ k) =
      pointed digit point r p always m ++ List.replicate k (digit 0) := by
  have hdiv : m * r ^ k / r ^ (p + k) = m / r ^ p := by
    rw [pow_add]
    exact Nat.mul_div_mul_right _ _ (Nat.pow_pos hr)
  rw [pointed, pointed, hdiv, if_neg (by omega), if_neg hp.ne', fixed_mul_pow hr, List.map_append,
    List.map_replicate, List.append_assoc, List.cons_append]

/-- The point that stands `always`. -/
lemma pointed_always (r p m : ℕ) :
    pointed digit point r p true m =
      pointed digit point r p false m ++ if p = 0 then [point] else [] := by
  by_cases hp : p = 0
  · simp [pointed, hp]
  · simp [pointed, hp]

lemma length_pointed_le {r n p m : ℕ} (hr : 1 < r) (hn : 0 < n) (hm : m < r ^ (n + p))
    (always : Bool) : (pointed digit point r p always m).length ≤ n + 1 + p := by
  have hlt : m / r ^ p < r ^ n := by
    rw [Nat.div_lt_iff_lt_mul (Nat.pow_pos (by omega)), ← pow_add]
    exact hm
  have hshown := length_shown_le digit hr hn hlt
  rw [pointed, List.length_append]
  split_ifs
  · rw [List.length_singleton]
    omega
  · rw [List.length_nil]
    omega
  · rw [List.length_cons, List.length_map, length_fixed]
    omega

/-- With one digit in front of the point, the point is second. -/
lemma pointed_one {r p m : ℕ} (hr : 1 < r) (hm : m < r ^ (p + 1)) (always : Bool) :
    ∃ d < r, pointed digit point r p always m =
      digit d :: if p = 0 then if always then [point] else []
        else point :: (fixed r p m).map digit := by
  have hlt : m / r ^ p < r := by
    rw [Nat.div_lt_iff_lt_mul (Nat.pow_pos (by omega)), ← pow_succ']
    exact hm
  have hsq : m / r ^ p < r * r := hlt.trans (lt_mul_of_one_lt_left (by omega) hr)
  refine ⟨m / r ^ p, hlt, ?_⟩
  rw [pointed, shown_of_lt_sq digit hr hsq, if_pos hlt, List.singleton_append]

/-- The place of the point gives the number of digits behind it. -/
lemma pointed_digits_inj [DecidableEq α] {r : ℕ} (hr : 1 < r) (hpoint : ∀ i < r, digit i ≠ point)
    {p p' m m' : ℕ} (h : pointed digit point r p true m = pointed digit point r p' true m') :
    p = p' := by
  have htail (p m : ℕ) : ((pointed digit point r p true m).dropWhile (· != point)).length =
      p + 1 := by
    have hshown : ∀ c ∈ shown digit r (m / r ^ p), (c != point) = true := by
      intro c hc
      obtain ⟨i, hi, rfl⟩ := mem_shown hr hc
      exact bne_iff_ne.mpr (hpoint i hi)
    rw [pointed, List.dropWhile_append_of_pos hshown]
    by_cases h0 : p = 0
    · simp [h0]
    · simp [h0, length_fixed]
  have hlen := congrArg (fun cs => (cs.dropWhile (· != point)).length) h
  simp only [htail] at hlen
  omega

end

/-! ### Rounding -/

/-- `m` is `x`, rounded to the nearest integer, or to the even one of two that are as near. -/
structure Rounds (x : ℚ) (m : ℕ) : Prop where
  near : |x - m| ≤ 1 / 2
  even : |x - m| = 1 / 2 → Even m

lemma Rounds.natCast (n : ℕ) : Rounds n n := by
  refine ⟨?_, fun h => ?_⟩
  · rw [sub_self, abs_zero]
    norm_num
  · rw [sub_self, abs_zero] at h
    norm_num at h

/-- There is only one. -/
lemma Rounds.unique {x : ℚ} {m n : ℕ} (hm : Rounds x m) (hn : Rounds x n) : m = n := by
  wlog hlt : m < n generalizing m n
  · rcases lt_or_eq_of_le (not_lt.mp hlt) with hgt | heq
    · exact (this hn hm hgt).symm
    · exact heq.symm
  -- `x` lies in the middle of two integers that follow each other
  have hm1 := (abs_le.mp hm.near).2
  have hn1 := (abs_le.mp hn.near).1
  have hsucc : n = m + 1 := by
    have hle : (n : ℚ) ≤ (m + 1 : ℕ) := by
      push_cast
      linarith
    have hnat : n ≤ m + 1 := by exact_mod_cast hle
    omega
  rw [hsucc] at hn1
  push_cast at hn1
  have hx : x - m = 1 / 2 := by linarith
  have heven : Even m := hm.even (by rw [hx]; norm_num)
  have heven' : Even (m + 1) := by
    rw [← hsucc]
    refine hn.even ?_
    rw [hsucc]
    push_cast
    rw [show x - (m + 1) = -(1 / 2) by linarith]
    norm_num
  exact absurd heven' (Nat.not_even_iff_odd.mpr heven.add_one)

/-- What is rounded stays below a bound. -/
lemma Rounds.lt {x : ℚ} {m n : ℕ} (h : Rounds x m) (hx : x + 1 / 2 < n) : m < n := by
  have hle := (abs_le.mp h.near).1
  have hlt : (m : ℚ) < n := by linarith
  exact_mod_cast hlt

/-- `x`, rounded. -/
def roundEven (x : ℚ) : ℕ :=
  let k := ⌊x⌋₊
  if x - k < 1 / 2 then k else if 1 / 2 < x - k then k + 1 else k + k % 2

lemma rounds_roundEven {x : ℚ} (hx : 0 ≤ x) : Rounds x (roundEven x) := by
  have hlow : (⌊x⌋₊ : ℚ) ≤ x := Nat.floor_le hx
  have hhigh : x < ⌊x⌋₊ + 1 := Nat.lt_floor_add_one x
  simp only [roundEven]
  split_ifs with hless hmore
  · refine ⟨abs_le.mpr ⟨by linarith, hless.le⟩, fun htie => ?_⟩
    rw [abs_of_nonneg (by linarith)] at htie
    exact absurd htie hless.ne
  · have hsucc : ((⌊x⌋₊ + 1 : ℕ) : ℚ) = ⌊x⌋₊ + 1 := Nat.cast_succ _
    refine ⟨?_, fun htie => ?_⟩
    · rw [hsucc]
      exact abs_le.mpr ⟨by linarith, by linarith⟩
    · rw [hsucc, abs_of_nonpos (by linarith)] at htie
      linarith
  · have htie : x - ⌊x⌋₊ = 1 / 2 := le_antisymm (not_lt.mp hmore) (not_lt.mp hless)
    have heven : Even (⌊x⌋₊ + ⌊x⌋₊ % 2) := by
      rw [Nat.even_iff]
      omega
    refine ⟨?_, fun _ => heven⟩
    rcases Nat.mod_two_eq_zero_or_one ⌊x⌋₊ with h | h
    · rw [h, Nat.add_zero, htie, abs_of_pos (by norm_num)]
    · rw [h]
      push_cast
      rw [show x - (⌊x⌋₊ + 1) = -(1 / 2) by linarith, abs_neg, abs_of_pos (by norm_num)]

lemma roundEven_natCast (n : ℕ) : roundEven n = n :=
  (rounds_roundEven (Nat.cast_nonneg n)).unique (.natCast n)

lemma roundEven_lt {x : ℚ} {n : ℕ} (h0 : 0 ≤ x) (hx : x + 1 / 2 < n) : roundEven x < n :=
  (rounds_roundEven h0).lt hx

/-! ### One digit in front of the point -/

/-- With `p` digits behind the point, a number below `r` is rounded up to `r`. -/
def RoundsUp (r p : ℕ) (x : ℚ) : Prop := (r : ℚ) ^ (p + 1) ≤ x * r ^ p + 1 / 2

instance (r p : ℕ) (x : ℚ) : Decidable (RoundsUp r p x) := inferInstanceAs (Decidable (_ ≤ _))

section

variable {r : ℕ} {x : ℚ}

/-- With the point moved where it is rounded up, one digit stands in front of it. -/
lemma roundEven_leading_lt (hr : 1 < r) (h0 : 0 ≤ x) (hx : x < r) (p : ℕ) :
    roundEven ((if RoundsUp r p x then x / r else x) * r ^ p) < r ^ (p + 1) := by
  have hr1 : (1 : ℚ) < r := by exact_mod_cast hr
  split_ifs with hup
  · refine roundEven_lt (by positivity) ?_
    have hone : x / r < 1 := (div_lt_one (by linarith)).mpr hx
    have hpow : (1 : ℚ) ≤ r ^ p := one_le_pow₀ hr1.le
    have hr2 : (2 : ℚ) ≤ r := by exact_mod_cast hr
    push_cast
    calc x / r * r ^ p + 1 / 2 < 1 * r ^ p + 1 * r ^ p := by
          refine add_lt_add (mul_lt_mul_of_pos_right hone (by positivity)) ?_
          linarith
      _ = r ^ p * 2 := by ring
      _ ≤ r ^ p * r := by gcongr
      _ = r ^ (p + 1) := (pow_succ _ _).symm
  · refine roundEven_lt (by positivity) ?_
    push_cast
    exact not_le.mp hup

/-- A number that ends within `q` digits is not rounded up, and neither with more digits. -/
lemma not_roundsUp_of_ends (hr : 1 < r) (hx : x < r) {q n : ℕ}
    (hn : (if RoundsUp r q x then x / r else x) * r ^ q = n) (j : ℕ) :
    ¬RoundsUp r q x ∧ ¬RoundsUp r (q + j) x := by
  have hr2 : (2 : ℚ) ≤ r := by exact_mod_cast hr
  have hj : (1 : ℚ) ≤ r ^ j := one_le_pow₀ (by linarith)
  by_cases hup : RoundsUp r q x
  · -- it would be at least `r`
    exfalso
    rw [if_pos hup] at hn
    have hone : x / r < 1 := (div_lt_one (by linarith)).mpr hx
    have hn1 : (n : ℚ) + 1 ≤ r ^ q := by
      have hlt : (n : ℚ) < (r ^ q : ℕ) := by
        push_cast
        rw [← hn]
        exact mul_lt_of_lt_one_left (by positivity) hone
      exact_mod_cast Nat.succ_le_of_lt (by exact_mod_cast hlt)
    have hval : x * r ^ q = n * r := by
      rw [← hn]
      field_simp
    refine absurd hup (not_le.mpr ?_)
    calc x * r ^ q + 1 / 2 < (n + 1) * r := by
          rw [hval]
          linarith
      _ ≤ r ^ q * r := by gcongr
      _ = r ^ (q + 1) := (pow_succ _ _).symm
  · rw [if_neg hup] at hn
    refine ⟨hup, not_le.mpr ?_⟩
    have hn1 : (n : ℚ) + 1 ≤ r ^ (q + 1) := by
      have hlt : (n : ℚ) < (r ^ (q + 1) : ℕ) := by
        push_cast
        rw [← hn]
        linarith [not_le.mp hup]
      exact_mod_cast Nat.succ_le_of_lt (by exact_mod_cast hlt)
    calc x * r ^ (q + j) + 1 / 2 = n * r ^ j + 1 / 2 := by rw [pow_add, ← mul_assoc, hn]
      _ < (n + 1) * r ^ j := by linarith
      _ ≤ r ^ (q + 1) * r ^ j := by gcongr
      _ = r ^ (q + j + 1) := by ring

end

end Pointed
