import Mathlib.Tactic

/-!
Truncation toward zero, in any ordered field with a floor.

* `truncate x`: the integer next to `x` on the side of zero.
* `abs_truncate_sub_lt`: on one side of zero, differences are kept to within one.
* `truncate_sub_eq`: and exactly, if they are integers.
-/

namespace Truncate

variable {α : Type*} [Field α] [LinearOrder α] [IsStrictOrderedRing α] [FloorRing α] {x y : α}

/-- `x` without its fraction. -/
def truncate (x : α) : ℤ := if 0 ≤ x then ⌊x⌋ else ⌈x⌉

lemma truncate_of_nonpos (h : x ≤ 0) : truncate x = ⌈x⌉ := by
  obtain rfl | hlt := eq_or_lt_of_le h
  · rw [truncate, if_pos le_rfl, Int.floor_zero, Int.ceil_zero]
  · exact if_neg (not_le.mpr hlt)

/-- **Differences** on one side of zero are kept to within one. -/
lemma abs_truncate_sub_lt (h : 0 ≤ x ∧ 0 ≤ y ∨ x ≤ 0 ∧ y ≤ 0) :
    |((truncate y - truncate x : ℤ) : α) - (y - x)| < 1 := by
  rw [Int.cast_sub, abs_sub_lt_iff]
  rcases h with ⟨hx, hy⟩ | ⟨hx, hy⟩
  · rw [truncate, truncate, if_pos hx, if_pos hy]
    have hx0 := Int.floor_le x
    have hx1 := Int.lt_floor_add_one x
    have hy0 := Int.floor_le y
    have hy1 := Int.lt_floor_add_one y
    constructor <;> linarith
  · rw [truncate_of_nonpos hx, truncate_of_nonpos hy]
    have hx0 := Int.le_ceil x
    have hx1 := Int.ceil_lt_add_one x
    have hy0 := Int.le_ceil y
    have hy1 := Int.ceil_lt_add_one y
    constructor <;> linarith

/-- Integer differences are kept. -/
lemma truncate_sub_eq (h : 0 ≤ x ∧ 0 ≤ y ∨ x ≤ 0 ∧ y ≤ 0) {n : ℤ} (hn : y - x = n) :
    truncate y - truncate x = n := by
  have hlt := abs_truncate_sub_lt h
  rw [hn, ← Int.cast_sub, ← Int.cast_abs, ← Int.cast_one, Int.cast_lt, Int.abs_lt_one_iff] at hlt
  omega

end Truncate
