import Mathlib.Tactic
import ConstexprFmtStr.Lib.Machine
import ConstexprFmtStr.Lib.Merged

/-!
The ideal of a logger with many writers, and what it is for another machine to refine a machine.

* `FanIn`: every source sends messages, and a single receiver is handed, one at a time, the next
  message of one of the sources.
* `FanIn.step_receive`: when a source's next message is handed over.
* `Machine.Refines M A f`: under `f` every step of `M` is a step of `A`, or none.
-/

open Merged

/-- What every source has sent, and what was received, each message with its source. -/
@[ext]
structure FanIn (ι ε : Type*) where
  sent : ι → List ε
  received : List (ι × ε)

namespace FanIn

variable {ι ε : Type*} [DecidableEq ι]

/-- A source sends a message, or the next message of a source is received. -/
inductive Act (ι ε : Type*)
  | send (i : ι) (e : ε)
  | receive (i : ι)

/-- One step: no message is received that is not the next of its source. -/
def step (s : FanIn ι ε) : Act ι ε → Option (FanIn ι ε)
  | .send i e => some { s with sent := Function.update s.sent i (s.sent i ++ [e]) }
  | .receive i =>
      (s.sent i)[(proj Prod.fst i s.received).length]?.map fun e =>
        { s with received := s.received ++ [(i, e)] }

/-- Every order of sending and receiving. -/
def machine : Machine (FanIn ι ε) (Act ι ε) where
  init := ⟨fun _ => [], []⟩
  step := step

/-- The messages of a source, when the first is one of them. -/
lemma proj_fst_cons_self (i : ι) (e : ε) (xs : List (ι × ε)) :
    proj Prod.fst i ((i, e) :: xs) = (i, e) :: proj Prod.fst i xs := proj_cons_self rfl

/-- The message that comes after those received from its source can be received. -/
lemma step_receive {s : FanIn ι ε} {i : ι} {e : ε}
    (h : (proj Prod.fst i s.received).map Prod.snd ++ [e] <+: s.sent i) :
    s.step (.receive i) = some { s with received := s.received ++ [(i, e)] } := by
  obtain ⟨rest, hrest⟩ := h
  have hnext : (s.sent i)[(proj Prod.fst i s.received).length]? = some e := by
    rw [← hrest, List.append_assoc, List.getElem?_append_right (by simp)]
    simp
  rw [step, hnext, Option.map_some]

end FanIn

namespace Machine

variable {σ τ α β : Type*} {M : Machine σ α} {A : Machine τ β} {f : σ → τ}

/-- Under `f` every step of `M` from a reachable state is a step of `A`, or leaves its state
alone. -/
structure Refines (M : Machine σ α) (A : Machine τ β) (f : σ → τ) : Prop where
  init : f M.init = A.init
  step : ∀ s a t, M.Reachable s → M.step s a = some t →
    f t = f s ∨ ∃ b, A.step (f s) b = some (f t)

end Machine
