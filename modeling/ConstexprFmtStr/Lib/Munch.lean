import Mathlib.Tactic

/-!
Lexing by maximal munch, for any tokens with their texts.

* `First`: a token is the longest one at the front of a word.
* `Lexes`: a word cut into tokens from left to right, the longest first; `Lexes.unique` says
  that there is at most one way.
-/

namespace Munch

variable {α τ : Type*} (text : τ → List α) (Valid : τ → Prop)

/-- The token is the longest one at the front of the word. -/
structure First (w : List α) (t : τ) : Prop where
  valid : Valid t
  isPrefix : text t <+: w
  longest : ∀ u, Valid u → text u <+: w → (text u).length ≤ (text t).length

/-- The word is these tokens, each of them the longest where it stands. -/
inductive Lexes : List α → List τ → Prop
  | nil : Lexes [] []
  | cons {t : τ} {rest : List α} {ts : List τ} :
      First text Valid (text t ++ rest) t → Lexes rest ts → Lexes (text t ++ rest) (t :: ts)

variable {text} {Valid}

lemma Lexes.valid {w : List α} {ts : List τ} (h : Lexes text Valid w ts) : ∀ t ∈ ts, Valid t := by
  induction h with
  | nil => exact fun t ht => absurd ht List.not_mem_nil
  | cons hfirst _ ih =>
      intro t ht
      rcases List.mem_cons.mp ht with rfl | ht
      · exact hfirst.valid
      · exact ih t ht

/-- The longest token is the only one, if tokens can be told apart by their texts. -/
lemma First.unique (hinj : ∀ t u, Valid t → Valid u → text t = text u → t = u) {w : List α}
    {t u : τ} (ht : First text Valid w t) (hu : First text Valid w u) : t = u := by
  have hlen : (text t).length = (text u).length :=
    le_antisymm (hu.longest t ht.valid ht.isPrefix) (ht.longest u hu.valid hu.isPrefix)
  refine hinj t u ht.valid hu.valid ?_
  rw [List.prefix_iff_eq_take.mp ht.isPrefix, List.prefix_iff_eq_take.mp hu.isPrefix, hlen]

/-- There is at most one way to cut a word. -/
theorem Lexes.unique (hinj : ∀ t u, Valid t → Valid u → text t = text u → t = u)
    (hne : ∀ t, Valid t → text t ≠ []) {w : List α} {ts us : List τ}
    (hts : Lexes text Valid w ts) (hus : Lexes text Valid w us) : ts = us := by
  induction hts generalizing us with
  | nil =>
      generalize hw : ([] : List α) = w at hus
      cases hus with
      | nil => rfl
      | cons hu _ => exact absurd (List.append_eq_nil_iff.mp hw.symm).1 (hne _ hu.valid)
  | @cons t rest ts ht hts ih =>
      generalize hw : text t ++ rest = w at hus
      cases hus with
      | nil => exact absurd (List.append_eq_nil_iff.mp hw).1 (hne _ ht.valid)
      | @cons u rest' us hu hus =>
          obtain rfl : t = u := by
            rw [← hw] at hu
            exact ht.unique hinj hu
          obtain rfl : rest = rest' := List.append_cancel_left hw
          rw [ih hus]

end Munch
