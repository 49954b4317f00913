import Mathlib.Tactic

/-!
Merged sequences: every element of a sequence belongs to one of several sources, and the elements
of each source come in the order of their source.

* `proj key k xs`: the elements of the source `k`.
* `exists_attributed`: what is known of each source by itself is known of the merged sequence,
  element by element.
* `exists_of_forall₂_append`: a correspondence is cut where one of its sides is.
-/

namespace Merged

variable {α β κ : Type*} [DecidableEq κ]

/-- The elements of the source `k`. -/
def proj (key : α → κ) (k : κ) (xs : List α) : List α := xs.filter fun x => key x = k

variable {key : α → κ} {k : κ} {x : α} {xs ys : List α}

@[simp] lemma proj_nil (key : α → κ) (k : κ) : proj key k [] = [] := rfl

lemma proj_cons_self (h : key x = k) : proj key k (x :: xs) = x :: proj key k xs := by
  rw [proj, List.filter_cons_of_pos (by simp [h]), proj]

lemma proj_cons_of_ne (h : key x ≠ k) : proj key k (x :: xs) = proj key k xs := by
  rw [proj, List.filter_cons_of_neg (by simp [h]), proj]

@[simp] lemma proj_append (key : α → κ) (k : κ) (xs ys : List α) :
    proj key k (xs ++ ys) = proj key k xs ++ proj key k ys := List.filter_append ..

/-- What corresponds to two parts has two parts. -/
lemma exists_of_forall₂_append {R : α → β → Prop} {zs : List β}
    (h : List.Forall₂ R (xs ++ ys) zs) :
    ∃ us vs, zs = us ++ vs ∧ List.Forall₂ R xs us ∧ List.Forall₂ R ys vs := by
  induction xs generalizing zs with
  | nil => exact ⟨[], zs, rfl, .nil, h⟩
  | cons x xs ih =>
      rw [List.cons_append, List.forall₂_cons_left_iff] at h
      obtain ⟨z, rest, hz, hrest, rfl⟩ := h
      obtain ⟨us, vs, rfl, hus, hvs⟩ := ih hrest
      exact ⟨z :: us, vs, rfl, .cons hz hus, hvs⟩

/-- **Attribution.** If the elements of each source `k` are those of `cs k`, one by one, then so
is the merged sequence, for a merging of the `cs k`. -/
lemma exists_attributed {R : α → β → Prop} {cs : κ → List β}
    (h : ∀ k, List.Forall₂ R (proj key k xs) (cs k)) :
    ∃ out : List (κ × β), List.Forall₂ (fun x y => y.1 = key x ∧ R x y.2) xs out ∧
      ∀ k, (proj Prod.fst k out).map Prod.snd = cs k := by
  induction xs generalizing cs with
  | nil =>
      refine ⟨[], .nil, fun k => ?_⟩
      have hk := h k
      rw [proj_nil, List.forall₂_nil_left_iff] at hk
      rw [hk, proj_nil, List.map_nil]
  | cons x xs ih =>
      have hx := h (key x)
      rw [proj_cons_self rfl, List.forall₂_cons_left_iff] at hx
      obtain ⟨c, rest, hc, hrest, hcs⟩ := hx
      have hothers (k : κ) :
          List.Forall₂ R (proj key k xs) (Function.update cs (key x) rest k) := by
        rcases eq_or_ne k (key x) with rfl | hk
        · rwa [Function.update_self]
        · rw [Function.update_of_ne hk, ← proj_cons_of_ne hk.symm]
          exact h k
      obtain ⟨out, hall, hout⟩ := ih hothers
      refine ⟨(key x, c) :: out, .cons ⟨rfl, hc⟩ hall, fun k => ?_⟩
      have hk := hout k
      rcases eq_or_ne k (key x) with rfl | hne
      · have hself : Prod.fst (key x, c) = key x := rfl
        rw [Function.update_self] at hk
        rw [proj_cons_self hself, List.map_cons, hk, hcs]
      · have hother : Prod.fst (key x, c) ≠ k := hne.symm
        rw [Function.update_of_ne hne] at hk
        rw [proj_cons_of_ne hother, hk]

end Merged
