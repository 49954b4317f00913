import Mathlib.Tactic

/-!
Labelled machines with a partial, deterministic step.

The choices of an environment (which thread moves, which value it is handed) are
the labels, so one machine carries every interleaving and still evaluates.

* `Machine.Reaches`: the states reached from a state by steps that all meet a
  guard; `Machine.Reachable` is the case of no guard, from the initial state.
* `Reaches.invariant`: what the first state has and every step keeps, the last
  state has.
* `exec` runs a list of labels, so that a concrete run can be evaluated; `guarded` also checks
  the guard at each step.
-/

/-- A machine: an initial state and, for each label, a partial step. -/
structure Machine (σ α : Type*) where
  init : σ
  step : σ → α → Option σ

namespace Machine

variable {σ α : Type*} (M : Machine σ α)

/-- The states reached from `s` by steps that all meet the guard `G`, a condition on the
state before the step and on its label. -/
inductive Reaches (G : σ → α → Prop) (s : σ) : σ → Prop
  | refl : Reaches G s s
  | tail {t u : σ} {a : α} : Reaches G s t → G t a → M.step t a = some u → Reaches G s u

/-- The guard that every step meets. -/
def anyStep : σ → α → Prop := fun _ _ => True

/-- The states reached from the initial one. -/
def Reachable (s : σ) : Prop := M.Reaches anyStep M.init s

variable {M} {G : σ → α → Prop} {s t u : σ}

/-- **The invariant rule**: what holds at the start and is kept by every step that meets the
guard holds in every state reached. -/
theorem Reaches.invariant {I : σ → Prop} (h : M.Reaches G s t) (hs : I s)
    (hstep : ∀ {t u a}, I t → G t a → M.step t a = some u → I u) : I t := by
  induction h with
  | refl => exact hs
  | tail _ hG hst ih => exact hstep ih hG hst

lemma Reaches.trans (h : M.Reaches G s t) (h' : M.Reaches G t u) : M.Reaches G s u := by
  induction h' with
  | refl => exact h
  | tail _ hG hst ih => exact ih.tail hG hst

lemma Reaches.single {a : α} (hG : G s a) (h : M.step s a = some t) : M.Reaches G s t :=
  Reaches.refl.tail hG h

/-- Weakening the guard. -/
lemma Reaches.mono {G' : σ → α → Prop} (hGG' : ∀ t a, G t a → G' t a) (h : M.Reaches G s t) :
    M.Reaches G' s t := by
  induction h with
  | refl => exact .refl
  | tail _ hG hst ih => exact ih.tail (hGG' _ _ hG) hst

/-- A step from a reachable state is reachable. -/
lemma Reachable.step {a : α} (h : M.Reachable s) (hst : M.step s a = some t) : M.Reachable t :=
  Reaches.tail h trivial hst

lemma Reachable.reaches (h : M.Reachable s) (h' : M.Reaches anyStep s t) : M.Reachable t :=
  Reaches.trans h h'

/-- The invariant rule from the initial state, with no guard. -/
theorem Reachable.invariant {I : σ → Prop} (h : M.Reachable s) (hinit : I M.init)
    (hstep : ∀ {t u a}, I t → M.step t a = some u → I u) : I s :=
  Reaches.invariant h hinit fun hI _ hst => hstep hI hst

/-- The state after a list of labels, if each of them is enabled in its turn. -/
def exec (M : Machine σ α) (s : σ) : List α → Option σ
  | [] => some s
  | a :: as =>
      match M.step s a with
      | some s' => exec M s' as
      | none => none

lemma exec_cons {a : α} {as : List α} (h : M.step s a = some t) :
    M.exec s (a :: as) = M.exec t as := by
  rw [exec, h]

/-- A list of labels that is enabled, each meeting the guard wherever it is taken, leads to a
state that is reached. -/
lemma reaches_of_exec {as : List α} (hG : ∀ a ∈ as, ∀ t, G t a) (h : M.exec s as = some t) :
    M.Reaches G s t := by
  induction as generalizing s with
  | nil =>
      cases h
      exact .refl
  | cons a as ih =>
      cases hst : M.step s a with
      | none => simp [exec, hst] at h
      | some s' =>
          rw [exec_cons hst] at h
          exact (Reaches.single (hG a List.mem_cons_self s) hst).trans
            (ih (fun a ha => hG a (List.mem_cons_of_mem _ ha)) h)

/-- The machine that takes only the steps that meet a guard. -/
def guarded (M : Machine σ α) (G : σ → α → Prop) [∀ s a, Decidable (G s a)] : Machine σ α where
  init := M.init
  step s a := if G s a then M.step s a else none

/-- What the guarded machine evaluates to is reached by steps that meet the guard. -/
lemma reaches_of_guarded [∀ s a, Decidable (G s a)] {as : List α}
    (h : (M.guarded G).exec s as = some t) : M.Reaches G s t := by
  induction as generalizing s with
  | nil =>
      cases h
      exact .refl
  | cons a as ih =>
      by_cases hG : G s a
      · cases hst : M.step s a with
        | none => simp [exec, guarded, hG, hst] at h
        | some s' =>
            have hst' : (M.guarded G).step s a = some s' := (if_pos hG).trans hst
            rw [exec_cons hst'] at h
            exact (Reaches.single hG hst).trans (ih h)
      · simp [exec, guarded, hG] at h

lemma reachable_of_exec {as : List α} (h : M.exec M.init as = some t) : M.Reachable t :=
  reaches_of_exec (fun _ _ _ => trivial) h

end Machine
