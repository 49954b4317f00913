import Mathlib.Tactic

/-!
Self-delimiting records: a stream is cut into records by reading the size of each record off
its own front.

* `IsRecord size r`: whatever follows `r`, its size is read as its length.
* `Framed size bs`: `bs` is a concatenation of records.
* `decode`: the records of a stream, cut off one after another; `decode_flatten` says that it
  undoes concatenation and `decode_append` that it goes piece by piece.
-/

namespace Framing

variable {α : Type*} (size : List α → ℕ)

/-- A record is not empty, and its size is read as its length whatever follows it. -/
structure IsRecord (r : List α) : Prop where
  ne_nil : r ≠ []
  size_append : ∀ rest, size (r ++ rest) = r.length

/-- A concatenation of records. -/
def Framed (bs : List α) : Prop :=
  ∃ rs : List (List α), (∀ r ∈ rs, IsRecord size r) ∧ rs.flatten = bs

/-- At most `fuel` records, cut off the front one after another. -/
def decodeFuel : ℕ → List α → List (List α)
  | 0, _ => []
  | _ + 1, [] => []
  | fuel + 1, b :: bs =>
      (b :: bs).take (size (b :: bs)) :: decodeFuel fuel ((b :: bs).drop (size (b :: bs)))

/-- The records of a stream. -/
def decode (bs : List α) : List (List α) := decodeFuel size bs.length bs

variable {size}

/-- Cutting off one record. -/
lemma decodeFuel_append {r : List α} (hr : IsRecord size r) (fuel : ℕ) (rest : List α) :
    decodeFuel size (fuel + 1) (r ++ rest) = r :: decodeFuel size fuel rest := by
  have hsize := hr.size_append rest
  cases r with
  | nil => exact absurd rfl hr.ne_nil
  | cons b r =>
      rw [List.cons_append] at hsize ⊢
      rw [decodeFuel, hsize, ← List.cons_append, List.take_left', List.drop_left'] <;> rfl

lemma decodeFuel_flatten {rs : List (List α)} (h : ∀ r ∈ rs, IsRecord size r) :
    ∀ {fuel : ℕ}, rs.flatten.length ≤ fuel → decodeFuel size fuel rs.flatten = rs := by
  induction rs with
  | nil =>
      intro fuel _
      cases fuel <;> rfl
  | cons r rs ih =>
      intro fuel hfuel
      have hr := h r List.mem_cons_self
      have hpos := List.length_pos_iff.mpr hr.ne_nil
      rw [List.flatten_cons, List.length_append] at hfuel
      obtain ⟨fuel, rfl⟩ : ∃ n, fuel = n + 1 := ⟨fuel - 1, by omega⟩
      rw [List.flatten_cons, decodeFuel_append hr,
        ih (fun r hr => h r (List.mem_cons_of_mem _ hr)) (by omega)]

/-- **Decoding undoes concatenation.** -/
theorem decode_flatten {rs : List (List α)} (h : ∀ r ∈ rs, IsRecord size r) :
    decode size rs.flatten = rs :=
  decodeFuel_flatten h le_rfl

lemma Framed.append {x y : List α} (hx : Framed size x) (hy : Framed size y) :
    Framed size (x ++ y) := by
  obtain ⟨rs, hrs, rfl⟩ := hx
  obtain ⟨rs', hrs', rfl⟩ := hy
  refine ⟨rs ++ rs', fun r hr => ?_, List.flatten_append⟩
  exact (List.mem_append.mp hr).elim (hrs r) (hrs' r)

/-- Decoding goes piece by piece. -/
lemma decode_append {x y : List α} (hx : Framed size x) (hy : Framed size y) :
    decode size (x ++ y) = decode size x ++ decode size y := by
  obtain ⟨rs, hrs, rfl⟩ := hx
  obtain ⟨rs', hrs', rfl⟩ := hy
  rw [decode_flatten hrs, decode_flatten hrs', ← List.flatten_append]
  exact decode_flatten fun r hr => (List.mem_append.mp hr).elim (hrs r) (hrs' r)

lemma Framed.flatMap {β : Type*} {f : β → List α} {xs : List β}
    (h : ∀ x ∈ xs, Framed size (f x)) : Framed size (xs.flatMap f) := by
  induction xs with
  | nil => exact ⟨[], by simp, rfl⟩
  | cons x xs ih =>
      rw [List.flatMap_cons]
      exact (h x List.mem_cons_self).append (ih fun y hy => h y (List.mem_cons_of_mem _ hy))

lemma decode_flatMap {β : Type*} {f : β → List α} {xs : List β}
    (h : ∀ x ∈ xs, Framed size (f x)) :
    decode size (xs.flatMap f) = xs.flatMap fun x => decode size (f x) := by
  induction xs with
  | nil => rfl
  | cons x xs ih =>
      have hxs : ∀ y ∈ xs, Framed size (f y) := fun y hy => h y (List.mem_cons_of_mem _ hy)
      rw [List.flatMap_cons, List.flatMap_cons,
        decode_append (h x List.mem_cons_self) (.flatMap hxs), ih hxs]

end Framing
