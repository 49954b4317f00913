import Mathlib.Tactic
import ConstexprFmtStr.Lib.Machine

/-!
Progress of a machine under a guard: what the parties that the guard lets move can bring about,
from wherever they start.

* `Machine.LeadsTo G P Q`: from every state with `P`, steps that meet `G` lead to one with `Q`.
* `LeadsTo.trans`, `LeadsTo.of_measure`: progress in phases, and by a measure that goes down.
-/

namespace Machine

variable {σ α : Type*} {M : Machine σ α} {G : σ → α → Prop} {P Q R : σ → Prop}

/-- From every state with `P`, steps that meet `G` lead to one with `Q`. -/
def LeadsTo (M : Machine σ α) (G : σ → α → Prop) (P Q : σ → Prop) : Prop :=
  ∀ s, P s → ∃ t, M.Reaches G s t ∧ Q t

lemma LeadsTo.trans (h : M.LeadsTo G P Q) (h' : M.LeadsTo G Q R) : M.LeadsTo G P R := by
  intro s hs
  obtain ⟨t, hst, ht⟩ := h s hs
  obtain ⟨u, htu, hu⟩ := h' t ht
  exact ⟨u, hst.trans htu, hu⟩

/-- **The measure rule**: from `P` some steps lead to `Q`, or to `P` again with a smaller
measure. -/
theorem LeadsTo.of_measure (f : σ → ℕ)
    (h : ∀ s, P s → ∃ t, M.Reaches G s t ∧ (Q t ∨ P t ∧ f t < f s)) : M.LeadsTo G P Q := by
  intro s hs
  induction hn : f s using Nat.strong_induction_on generalizing s with
  | _ n ih =>
      obtain ⟨t, hst, hQ | ⟨ht, hlt⟩⟩ := h s hs
      · exact ⟨t, hst, hQ⟩
      · obtain ⟨u, htu, hu⟩ := ih (f t) (hn ▸ hlt) t ht rfl
        exact ⟨u, hst.trans htu, hu⟩

end Machine
