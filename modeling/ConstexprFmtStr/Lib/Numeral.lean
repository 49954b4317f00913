import Mathlib.Data.Nat.Digits.Lemmas
import Mathlib.Tactic

/-!
Numerals, highest digit first, written two digits at a time.

* `numeral r d`: the digits of `d` in base `r`, none for `0`.
* `fixed`: a fixed number of digits, with zeros in front.
* `valueOf`: the number that a list of digits says; `valueOf_shown` reads back what is shown.
* `pairLoop`: the usual loop of a fast integer printer, which fills its buffer from the end with
  the two-digit groups of a table; `pairLoop_eq` says that it writes the numeral, and one zero
  for `0`.
-/

namespace Numeral

variable {α : Type*}

/-- The digits of `d` in base `r`, highest first. -/
def numeral (r d : ℕ) : List ℕ := (Nat.digits r d).reverse

@[simp] lemma numeral_zero (r : ℕ) : numeral r 0 = [] := by simp [numeral]

lemma numeral_step {r d : ℕ} (hr : 1 < r) (hd : 0 < d) :
    numeral r d = numeral r (d / r) ++ [d % r] := by
  rw [numeral, Nat.digits_def' hr hd, List.reverse_cons]
  rfl

lemma numeral_of_lt {r d : ℕ} (hd : 0 < d) (h : d < r) : numeral r d = [d] := by
  rw [numeral_step (by omega) hd, Nat.div_eq_of_lt h, Nat.mod_eq_of_lt h, numeral_zero]
  rfl

/-- Two digits at once. -/
lemma numeral_step_pair {r d : ℕ} (hr : 1 < r) (hd : r ≤ d) :
    numeral r d = numeral r (d / (r * r)) ++ [d % (r * r) / r, d % (r * r) % r] := by
  have hq : 0 < d / r := Nat.div_pos hd (by omega)
  calc numeral r d = numeral r (d / r / r) ++ [d / r % r] ++ [d % r] := by
        rw [numeral_step hr (by omega), numeral_step hr hq]
    _ = numeral r (d / (r * r)) ++ [d % (r * r) / r, d % (r * r) % r] := by
        rw [Nat.div_div_eq_div_mul, List.append_assoc, Nat.mod_mul_right_div_self,
          Nat.mod_mul_right_mod]
        rfl

/-- What is written for `d`: its numeral in the given digits, one zero for `0`. -/
def shown (digit : ℕ → α) (r d : ℕ) : List α :=
  if d = 0 then [digit 0] else (numeral r d).map digit

/-- Other digits for the same values. -/
lemma map_shown {β : Type*} {f : α → β} {digit : ℕ → α} {digit' : ℕ → β} {r : ℕ} (hr : 1 < r)
    (h : ∀ i < r, f (digit i) = digit' i) (d : ℕ) :
    (shown digit r d).map f = shown digit' r d := by
  rw [shown, shown]
  split_ifs with hd
  · rw [List.map_singleton, h 0 (by omega)]
  · rw [List.map_map]
    refine List.map_congr_left fun i hi => h i ?_
    exact Nat.digits_lt_base hr (List.mem_reverse.mp hi)

lemma length_shown_pos (digit : ℕ → α) (r d : ℕ) : 0 < (shown digit r d).length := by
  rw [shown]
  split_ifs with hd
  · simp
  · simp [numeral, List.length_pos_iff, Nat.digits_ne_nil_iff_ne_zero, hd]

/-! ### Reading a numeral -/

/-- The number that digits say, given the value of each. -/
def valueOf (val : α → ℕ) (r : ℕ) (ds : List α) : ℕ := ds.foldl (fun n d => r * n + val d) 0

lemma valueOf_append (val : α → ℕ) (r : ℕ) (ds es : List α) :
    valueOf val r (ds ++ es) = valueOf val r ds * r ^ es.length + valueOf val r es := by
  induction es using List.reverseRecOn with
  | nil => simp [valueOf]
  | append_singleton es e ih =>
      simp only [valueOf, List.foldl_append, List.foldl_cons, List.foldl_nil,
        List.length_append, List.length_singleton, pow_succ] at ih ⊢
      rw [ih]
      ring

/-- Leading zeros do not count. -/
lemma valueOf_zeros {val : α → ℕ} {z : α} (hz : val z = 0) (r k : ℕ) (ds : List α) :
    valueOf val r (List.replicate k z ++ ds) = valueOf val r ds := by
  have hzeros : valueOf val r (List.replicate k z) = 0 := by
    induction k with
    | zero => rfl
    | succ k ih =>
        rw [List.replicate_succ', valueOf_append, ih]
        simp [valueOf, hz]
  rw [valueOf_append, hzeros, Nat.zero_mul, Nat.zero_add]

lemma valueOf_numeral {val : α → ℕ} {digit : ℕ → α} {r : ℕ} (hr : 1 < r)
    (hval : ∀ i < r, val (digit i) = i) (d : ℕ) :
    valueOf val r ((numeral r d).map digit) = d := by
  induction d using Nat.strong_induction_on with
  | _ d ih =>
    rcases Nat.eq_zero_or_pos d with rfl | hd
    · simp [valueOf]
    · rw [numeral_step hr hd, List.map_append, valueOf_append, ih _ (Nat.div_lt_self hd hr)]
      simp only [List.map_cons, List.map_nil, List.length_singleton, pow_one, valueOf,
        List.foldl_cons, List.foldl_nil, Nat.mul_zero, Nat.zero_add,
        hval _ (Nat.mod_lt d (by omega))]
      exact Nat.div_add_mod' d r

/-- What is shown reads back. -/
lemma valueOf_shown {val : α → ℕ} {digit : ℕ → α} {r : ℕ} (hr : 1 < r)
    (hval : ∀ i < r, val (digit i) = i) (d : ℕ) :
    valueOf val r (shown digit r d) = d := by
  rw [shown]
  split_ifs with hd
  · rw [valueOf, List.foldl_cons, List.foldl_nil, hval 0 (by omega), hd]
    omega
  · exact valueOf_numeral hr hval d

lemma mem_shown {digit : ℕ → α} {r : ℕ} (hr : 1 < r) {d : ℕ} {c : α}
    (hc : c ∈ shown digit r d) : ∃ i < r, c = digit i := by
  rw [shown] at hc
  split_ifs at hc
  · exact ⟨0, by omega, List.mem_singleton.mp hc⟩
  · obtain ⟨i, hi, rfl⟩ := List.mem_map.mp hc
    exact ⟨i, Nat.digits_lt_base hr (List.mem_reverse.mp hi), rfl⟩

lemma length_shown (digit : ℕ → α) (r d : ℕ) :
    (shown digit r d).length = max 1 (Nat.digits r d).length := by
  rw [shown]
  split_ifs with hd
  · simp [hd]
  · have hpos : 0 < (Nat.digits r d).length :=
      List.length_pos_iff.mpr (Nat.digits_ne_nil_iff_ne_zero.mpr hd)
    rw [List.length_map, numeral, List.length_reverse]
    exact (max_eq_right hpos).symm

lemma length_shown_le (digit : ℕ → α) {r k d : ℕ} (hr : 1 < r) (hk : 0 < k) (hd : d < r ^ k) :
    (shown digit r d).length ≤ k := by
  rw [length_shown]
  exact max_le hk ((Nat.digits_length_le_iff hr d).mpr hd)

/-- A numeral does not start with a zero. -/
lemma head?_shown (digit : ℕ → α) {r d : ℕ} (hr : 1 < r) (hd : d ≠ 0) :
    ∃ i, 0 < i ∧ i < r ∧ (shown digit r d).head? = some (digit i) := by
  have hne : Nat.digits r d ≠ [] := Nat.digits_ne_nil_iff_ne_zero.mpr hd
  refine ⟨(Nat.digits r d).getLast hne,
    Nat.pos_of_ne_zero (Nat.getLast_digit_ne_zero r hd),
    Nat.digits_lt_base hr (List.getLast_mem hne), ?_⟩
  rw [shown, if_neg hd, numeral, List.head?_map, List.head?_reverse,
    List.getLast?_eq_getLast_of_ne_nil hne]
  rfl

/-! ### A fixed number of digits -/

/-- The last `k` digits of `d` in base `r`, highest first, with zeros in front. -/
def fixed (r : ℕ) : ℕ → ℕ → List ℕ
  | 0, _ => []
  | k + 1, d => fixed r k (d / r) ++ [d % r]

lemma length_fixed (r k d : ℕ) : (fixed r k d).length = k := by
  induction k generalizing d with
  | zero => rfl
  | succ k ih => rw [fixed, List.length_append, ih, List.length_singleton]

/-- A numeral with zeros in front. -/
lemma zeros_numeral {r k d : ℕ} (hr : 1 < r) (hd : d < r ^ k) :
    List.replicate (k - (numeral r d).length) 0 ++ numeral r d = fixed r k d := by
  induction k generalizing d with
  | zero =>
      obtain rfl : d = 0 := by simpa using hd
      simp [fixed]
  | succ k ih =>
      have hlt : d / r < r ^ k := by
        rw [pow_succ] at hd
        exact Nat.div_lt_of_lt_mul (by rwa [mul_comm] at hd)
      rw [fixed, ← ih hlt]
      rcases Nat.eq_zero_or_pos d with rfl | hpos
      · simp [List.replicate_succ']
      · rw [numeral_step hr hpos, List.length_append, List.length_singleton,
          Nat.add_sub_add_right, List.append_assoc]

/-- What is shown, with zeros in front. -/
lemma zeros_shown (digit : ℕ → α) {r k d : ℕ} (hr : 1 < r) (hk : 0 < k) (hd : d < r ^ k) :
    List.replicate (k - (shown digit r d).length) (digit 0) ++ shown digit r d =
      (fixed r k d).map digit := by
  rw [← zeros_numeral hr hd, shown]
  split_ifs with hzero
  · subst hzero
    obtain ⟨k, rfl⟩ : ∃ n, k = n + 1 := ⟨k - 1, by omega⟩
    simp [List.replicate_succ']
  · simp

/-! ### Two digits at a time -/

/-- Two more digits. -/
lemma shown_step_pair (digit : ℕ → α) {r d : ℕ} (hr : 1 < r) (hdiv : d / (r * r) ≠ 0) :
    shown digit r d =
      shown digit r (d / (r * r)) ++ [digit (d % (r * r) / r), digit (d % (r * r) % r)] := by
  have hle : r * r ≤ d := by
    by_contra hlt
    exact hdiv (Nat.div_eq_of_lt (not_le.mp hlt))
  have hle' : r ≤ d := le_trans (Nat.le_mul_of_pos_left r (by omega)) hle
  rw [shown, if_neg (by omega), shown, if_neg hdiv, numeral_step_pair hr hle', List.map_append]
  rfl

/-- The last two digits, or the last one. -/
lemma shown_of_lt_sq (digit : ℕ → α) {r d : ℕ} (hr : 1 < r) (hd : d < r * r) :
    shown digit r d = if d < r then [digit d] else [digit (d / r), digit (d % r)] := by
  rw [shown]
  split_ifs with h0 hsmall hsmall
  · rw [h0]
  · omega
  · rw [numeral_of_lt (Nat.pos_of_ne_zero h0) hsmall]
    rfl
  · rw [numeral_step_pair hr (by omega), Nat.div_eq_of_lt hd, Nat.mod_eq_of_lt hd, numeral_zero]
    rfl

/-- The loop, over the text already in the buffer. -/
def pairLoop (r : ℕ) (pair : ℕ → List α) : ℕ → ℕ → List α → List α
  | 0, _, acc => acc
  | fuel + 1, d, acc =>
      if d / (r * r) ≠ 0 then pairLoop r pair fuel (d / (r * r)) (pair (d % (r * r)) ++ acc)
      else (if d < r then (pair d).tail else pair d) ++ acc

/-- The loop writes the numeral, if the table holds the two-digit groups and the buffer has
room for it. -/
theorem pairLoop_eq {r : ℕ} {pair : ℕ → List α} {digit : ℕ → α} (hr : 1 < r)
    (hpair : ∀ i < r * r, pair i = [digit (i / r), digit (i % r)]) {fuel d : ℕ} (acc : List α)
    (h : d < (r * r) ^ fuel) (hfuel : 0 < fuel) :
    pairLoop r pair fuel d acc = shown digit r d ++ acc := by
  have hsq : 0 < r * r := by positivity
  induction fuel generalizing d acc with
  | zero => exact absurd hfuel (lt_irrefl 0)
  | succ fuel ih =>
      rw [pairLoop]
      by_cases hdiv : d / (r * r) = 0
      · have hlt : d < r * r := by
          rcases Nat.div_eq_zero_iff.mp hdiv with h0 | hlt
          · exact absurd h0 hsq.ne'
          · exact hlt
        rw [if_neg (not_not.mpr hdiv), hpair d hlt]
        congr 1
        rw [shown_of_lt_sq digit hr hlt]
        by_cases hsmall : d < r
        · rw [if_pos hsmall, if_pos hsmall, Nat.mod_eq_of_lt hsmall]
          rfl
        · rw [if_neg hsmall, if_neg hsmall]
      · have hquot : d / (r * r) < (r * r) ^ fuel := by
          rw [Nat.div_lt_iff_lt_mul hsq, ← pow_succ]
          exact h
        have hpos : 0 < fuel := by
          by_contra h0
          rw [Nat.eq_zero_of_not_pos h0, pow_zero, Nat.lt_one_iff] at hquot
          exact hdiv hquot
        rw [if_pos hdiv, ih _ hquot hpos, hpair _ (Nat.mod_lt d hsq), shown_step_pair digit hr hdiv,
          List.append_assoc]

end Numeral
