import Mathlib.Tactic

/-!
Machine words as integers, with the wrap written out.

* `wrapU w`, `wrapS w`: the value a `w`-bit unsigned or two's complement word holds after a
  conversion or an operation whose exact result is given.
* `u64Add`, `u64Sub`: the arithmetic of a 64-bit unsigned type, with the two lemmas that say
  when no wrap happens.
* `leBytes`, `leValue`: the bytes of a word, lowest first, and the word read back.
-/

namespace Word

/-- The value of a `w`-bit unsigned word converted from `x`. -/
def wrapU (w : ℕ) (x : ℤ) : ℕ := (x % 2 ^ w).toNat

/-- The value of a `w`-bit two's complement word converted from `x`. -/
def wrapS (w : ℕ) (x : ℤ) : ℤ := x.bmod (2 ^ w)

lemma wrapU_of_lt {w : ℕ} {x : ℤ} (h0 : 0 ≤ x) (h : x < 2 ^ w) : wrapU w x = x.toNat := by
  rw [wrapU, Int.emod_eq_of_lt h0 h]

lemma wrapU_natCast {w n : ℕ} (h : n < 2 ^ w) : wrapU w n = n := by
  rw [wrapU_of_lt (by omega) (by exact_mod_cast h), Int.toNat_natCast]

lemma wrapU_lt (w : ℕ) (x : ℤ) : wrapU w x < 2 ^ w := by
  have hpos : (0 : ℤ) < 2 ^ w := by positivity
  have h0 := Int.emod_nonneg x hpos.ne'
  have h1 := Int.emod_lt_of_pos x hpos
  have hcast : (wrapU w x : ℤ) < 2 ^ w := by
    rw [wrapU, Int.toNat_of_nonneg h0]
    exact h1
  exact_mod_cast hcast

/-- A value in range is kept. -/
lemma wrapS_of_bounds {w : ℕ} {x : ℤ} (hlo : -2 ^ w ≤ 2 * x) (hhi : 2 * x < 2 ^ w) :
    wrapS w x = x := by
  refine Int.bmod_eq_of_le_mul_two ?_ ?_
  · rw [Nat.cast_pow, mul_comm]
    exact hlo
  · rw [Nat.cast_pow, mul_comm]
    exact hhi

lemma wrapS_bounds {w : ℕ} (hw : 0 < w) (x : ℤ) :
    -2 ^ w ≤ 2 * wrapS w x ∧ 2 * wrapS w x < 2 ^ w := by
  obtain ⟨k, rfl⟩ : ∃ k, w = k + 1 := ⟨w - 1, by omega⟩
  have hpos : (0 : ℤ) < 2 ^ k := by positivity
  have hlo := Int.le_bmod (x := x) (m := 2 ^ (k + 1)) (by positivity)
  have hhi := Int.bmod_lt (x := x) (m := 2 ^ (k + 1)) (by positivity)
  have hcast : ((2 ^ (k + 1) : ℕ) : ℤ) = 2 * 2 ^ k := by push_cast; ring
  have hexp : (2 : ℤ) ^ (k + 1) = 2 * 2 ^ k := by ring
  rw [hcast] at hlo hhi
  rw [wrapS, hexp]
  constructor <;> omega

lemma natCast_wrapU (w : ℕ) (x : ℤ) : (wrapU w x : ℤ) = x % 2 ^ w :=
  Int.toNat_of_nonneg (Int.emod_nonneg x (by positivity))

lemma wrapS_congr {w : ℕ} {x y : ℤ} (h : x % 2 ^ w = y % 2 ^ w) : wrapS w x = wrapS w y := by
  have hcast : ((2 ^ w : ℕ) : ℤ) = 2 ^ w := Nat.cast_pow _ _
  rw [wrapS, wrapS, Int.bmod_def, Int.bmod_def, hcast, h]

/-- A conversion through an unsigned type of at least the same width. -/
lemma wrapS_wrapU {w v : ℕ} (h : w ≤ v) (x : ℤ) : wrapS w (wrapU v x) = wrapS w x := by
  rw [natCast_wrapU]
  exact wrapS_congr (Int.emod_emod_of_dvd _ (pow_dvd_pow _ h))

/-- A wrap before an addition is lost in the wrap after it, -/
lemma wrapU_wrapU_add (w : ℕ) (x y : ℤ) : wrapU w (wrapU w x + y) = wrapU w (x + y) := by
  rw [wrapU, natCast_wrapU, Int.emod_add_emod, wrapU]

/-- whatever its sign. -/
lemma wrapU_add_wrapS (w : ℕ) (x y : ℤ) : wrapU w (x + wrapS w y) = wrapU w (x + y) := by
  have hcast : ((2 ^ w : ℕ) : ℤ) = 2 ^ w := Nat.cast_pow _ _
  have hmod : wrapS w y % 2 ^ w = y % 2 ^ w := by
    rw [wrapS, ← hcast, Int.bmod_emod]
  rw [wrapU, Int.add_emod, hmod, ← Int.add_emod, wrapU]

/-! ### 64-bit unsigned arithmetic -/

/-- `a + b` on a 64-bit unsigned type. -/
def u64Add (a b : ℕ) : ℕ := wrapU 64 (a + b)

/-- `a - b` on a 64-bit unsigned type. -/
def u64Sub (a b : ℕ) : ℕ := wrapU 64 (a - b)

lemma u64Add_of_lt {a b : ℕ} (h : a + b < 2 ^ 64) : u64Add a b = a + b := by
  rw [u64Add, ← Nat.cast_add, wrapU_natCast h]

lemma u64Sub_of_le {a b : ℕ} (hle : b ≤ a) (h : a < 2 ^ 64) : u64Sub a b = a - b := by
  rw [u64Sub, ← Nat.cast_sub hle, wrapU_natCast (by omega)]

/-! ### Little-endian bytes -/

/-- The low `n` bytes of `x`, lowest first. -/
def leBytes : ℕ → ℕ → List UInt8
  | 0, _ => []
  | n + 1, x => UInt8.ofNat x :: leBytes n (x / 256)

/-- The number whose bytes, lowest first, are given. -/
def leValue : List UInt8 → ℕ
  | [] => 0
  | b :: bs => b.toNat + 256 * leValue bs

@[simp] lemma length_leBytes (n x : ℕ) : (leBytes n x).length = n := by
  induction n generalizing x with
  | zero => rfl
  | succ n ih => simp [leBytes, ih]

/-- A word read back from its bytes. -/
lemma leValue_leBytes {n x : ℕ} (h : x < 256 ^ n) : leValue (leBytes n x) = x := by
  induction n generalizing x with
  | zero =>
      simp only [pow_zero] at h
      simp [leBytes, leValue, show x = 0 by omega]
  | succ n ih =>
      rw [leBytes, leValue, ih (by rw [pow_succ] at h; omega), UInt8.toNat_ofNat']
      omega

/-- Bytes read back from the word they make. -/
lemma leBytes_leValue (bs : List UInt8) : leBytes bs.length (leValue bs) = bs := by
  induction bs with
  | nil => rfl
  | cons b bs ih =>
      have hb := b.toNat_lt
      have hhead : UInt8.ofNat (b.toNat + 256 * leValue bs) = b := by
        apply UInt8.toNat_inj.mp
        rw [UInt8.toNat_ofNat']
        omega
      rw [List.length_cons, leValue, leBytes, hhead, Nat.add_mul_div_left _ _ (by decide),
        Nat.div_eq_of_lt hb, Nat.zero_add, ih]

end Word
