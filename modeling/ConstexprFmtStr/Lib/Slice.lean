import Mathlib.Tactic

/-!
Slices of a memory: a memory is a function from addresses to cells, and `slice f a n`
reads the `n` cells from the address `a` on.

* `slice_add` splits a slice, `slice_congr` is the frame rule for reading, and
  `slice_writeAt_of_disjoint` and `slice_writeAt_self` are the two rules for reading
  after a block write.
* `located` pairs each cell read with its address, so that two blocks can be told
  apart by where they lie.
-/

namespace Slice

variable {β : Type*}

/-- The `n` cells of the memory `f` from the address `a` on. -/
def slice (f : ℕ → β) (a n : ℕ) : List β := (List.range' a n).map f

@[simp] lemma length_slice (f : ℕ → β) (a n : ℕ) : (slice f a n).length = n := by
  simp [slice]

@[simp] lemma slice_zero (f : ℕ → β) (a : ℕ) : slice f a 0 = [] := rfl

lemma slice_succ (f : ℕ → β) (a n : ℕ) : slice f a (n + 1) = f a :: slice f (a + 1) n := by
  simp [slice, List.range'_succ]

/-- A slice splits at any point of it. -/
lemma slice_add (f : ℕ → β) (a m n : ℕ) :
    slice f a (m + n) = slice f a m ++ slice f (a + m) n := by
  rw [slice, ← List.range'_append_1, List.map_append]
  rfl

lemma take_slice (f : ℕ → β) (a : ℕ) {m n : ℕ} (h : m ≤ n) :
    (slice f a n).take m = slice f a m := by
  obtain ⟨k, rfl⟩ := Nat.exists_eq_add_of_le h
  rw [slice_add, List.take_left' (length_slice f a m)]

lemma drop_slice (f : ℕ → β) (a : ℕ) {m n : ℕ} (h : m ≤ n) :
    (slice f a n).drop m = slice f (a + m) (n - m) := by
  obtain ⟨k, rfl⟩ := Nat.exists_eq_add_of_le h
  rw [slice_add, List.drop_left' (length_slice f a m), Nat.add_sub_cancel_left]

/-- Reading sees only the cells of the slice. -/
lemma slice_congr {f g : ℕ → β} {a n : ℕ} (h : ∀ i, a ≤ i → i < a + n → f i = g i) :
    slice f a n = slice g a n := by
  refine List.map_congr_left fun i hi => ?_
  rw [List.mem_range'_1] at hi
  exact h i hi.1 hi.2

lemma getElem?_slice (f : ℕ → β) (a : ℕ) {n i : ℕ} (h : i < n) :
    (slice f a n)[i]? = some (f (a + i)) := by
  simp [slice, h]

/-! ### Block writes -/

/-- The memory after the block `bs` is written from the address `a` on. -/
def writeAt (f : ℕ → β) (a : ℕ) (bs : List β) : ℕ → β := fun i =>
  if a ≤ i then bs.getD (i - a) (f i) else f i

lemma writeAt_of_disjoint {f : ℕ → β} {a i : ℕ} {bs : List β}
    (h : i < a ∨ a + bs.length ≤ i) : writeAt f a bs i = f i := by
  unfold writeAt
  split_ifs with ha
  · rw [List.getD_eq_getElem?_getD, List.getElem?_eq_none (by omega)]
    rfl
  · rfl

@[simp] lemma writeAt_nil (f : ℕ → β) (a : ℕ) : writeAt f a [] = f := by
  funext i
  exact writeAt_of_disjoint (by simp; omega)

/-- A slice beside a written block is unchanged. -/
lemma slice_writeAt_of_disjoint {f : ℕ → β} {a b n : ℕ} {bs : List β}
    (h : b + n ≤ a ∨ a + bs.length ≤ b) : slice (writeAt f a bs) b n = slice f b n :=
  slice_congr fun _ hi hi' => writeAt_of_disjoint (by omega)

/-- Reading a written block gives the block. -/
lemma slice_writeAt_self (f : ℕ → β) (a : ℕ) (bs : List β) :
    slice (writeAt f a bs) a bs.length = bs := by
  refine List.ext_getElem? fun i => ?_
  by_cases hi : i < bs.length
  · rw [getElem?_slice _ _ hi, writeAt, if_pos (by omega), Nat.add_sub_cancel_left,
      List.getD_eq_getElem?_getD, List.getElem?_eq_getElem hi]
    rfl
  · rw [List.getElem?_eq_none (by simpa using hi), List.getElem?_eq_none (by omega)]

/-- Two blocks written one after the other. -/
lemma writeAt_append (f : ℕ → β) (a : ℕ) (bs cs : List β) :
    writeAt (writeAt f a bs) (a + bs.length) cs = writeAt f a (bs ++ cs) := by
  funext i
  by_cases hi : a ≤ i
  · by_cases hlt : i < a + bs.length
    · rw [writeAt_of_disjoint (.inl hlt), writeAt, writeAt, if_pos hi, if_pos hi,
        List.getD_eq_getElem?_getD, List.getD_eq_getElem?_getD,
        List.getElem?_append_left (by omega)]
    · rw [writeAt, if_pos (by omega), writeAt_of_disjoint (.inr (by omega)), writeAt, if_pos hi,
        List.getD_eq_getElem?_getD, List.getD_eq_getElem?_getD,
        List.getElem?_append_right (by omega), Nat.sub_sub]
  · rw [writeAt_of_disjoint (.inl (by omega)), writeAt_of_disjoint (.inl (by omega)),
      writeAt_of_disjoint (.inl (by omega))]

/-! ### Cells with their addresses -/

/-- The cells at the given addresses, each with its address. -/
def located (f : ℕ → β) (as : List ℕ) : List (ℕ × β) := as.map fun a => (a, f a)

@[simp] lemma located_nil (f : ℕ → β) : located f [] = [] := rfl

@[simp] lemma located_append (f : ℕ → β) (as bs : List ℕ) :
    located f (as ++ bs) = located f as ++ located f bs := List.map_append

@[simp] lemma length_located (f : ℕ → β) (as : List ℕ) : (located f as).length = as.length :=
  List.length_map _

@[simp] lemma map_fst_located (f : ℕ → β) (as : List ℕ) : (located f as).map Prod.fst = as := by
  simp [located, Function.comp_def]

lemma map_snd_located_range' (f : ℕ → β) (a n : ℕ) :
    (located f (List.range' a n)).map Prod.snd = slice f a n := by
  simp [located, slice, Function.comp_def]

lemma drop_located (f : ℕ → β) (as : List ℕ) (k : ℕ) :
    (located f as).drop k = located f (as.drop k) := by
  simp [located]

lemma take_located (f : ℕ → β) (as : List ℕ) (k : ℕ) :
    (located f as).take k = located f (as.take k) := by
  simp [located]

lemma located_congr {f g : ℕ → β} {as : List ℕ} (h : ∀ a ∈ as, f a = g a) :
    located f as = located g as :=
  List.map_congr_left fun a ha => by rw [h a ha]

end Slice
