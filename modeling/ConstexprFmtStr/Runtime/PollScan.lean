import Mathlib.Tactic
import ConstexprFmtStr.Runtime.EndToEnd

/-!
One pass of `poll_` over `threadBuffers` (`runtime_logger.cpp`), with the index of the code: an
`int` that is compared with a `size_t`.

* `PollScan.visit`: one iteration of the `for`, for what its look at a buffer finds.
* `pollPass`: the pass; the other threads may append buffers whenever there is work.
* `Scanned`: the state after some visits, in terms of what they found.
* `scansOnce_iff`: every buffer is visited once, and exactly those found deletable are removed,
  unless the index overflows.
* `pollStep_visit`: the poll thread of the pipeline does one iteration after another;
  `Pipeline.comeTo_le` bounds its index by the number of buffers.
-/

namespace ConstexprFmtStr

open Word

/-- What the look at a buffer finds. -/
inductive Visit (β : Type*)
  /-- there is work, and the other threads append buffers while the lock is released -/
  | work (appended : List β)
  /-- there is none -/
  | idle
  /-- there is none, and `checkCanDelete` -/
  | deletable

namespace Visit

variable {β : Type*}

/-- The buffers that are appended meanwhile. -/
def appended : Visit β → List β
  | .work appended => appended
  | _ => []

/-- The buffer stays. -/
def keeps : Visit β → Bool
  | .deletable => false
  | _ => true

end Visit

/-- The vector and the index, with the buffers that were peeked and those that were deleted. -/
structure PollScan (β : Type*) where
  threadBuffers : List β
  i : ℤ
  peeked : List β
  deleted : List β
  /-- the loop was left by its `break` -/
  broke : Bool

namespace PollScan

variable {β : Type*}

/-- At the start of the `for`. -/
def start (threadBuffers : List β) : PollScan β where
  threadBuffers := threadBuffers
  i := 0
  peeked := []
  deleted := []
  broke := false

/-- The loop goes on: `i < threadBuffers.size()`, where `i` is converted to `size_t`. -/
def Continues (s : PollScan β) : Prop :=
  s.broke = false ∧ wrapU 64 s.i < s.threadBuffers.length

instance (s : PollScan β) : Decidable s.Continues := inferInstanceAs (Decidable (_ ∧ _))

/-- `i++`, which is undefined at the greatest `int`. -/
def next (s : PollScan β) : Option (PollScan β) :=
  if s.i + 1 < 2 ^ 31 then some { s with i := s.i + 1 } else none

/-- One iteration; `none` if it is undefined. -/
def visit (s : PollScan β) (v : Visit β) : Option (PollScan β) :=
  match s.threadBuffers[wrapU 64 s.i]? with
  | none => none
  | some sb =>
      let s := { s with peeked := s.peeked ++ [sb] }
      match v with
      | .work appended => { s with threadBuffers := s.threadBuffers ++ appended }.next
      | .idle => s.next
      | .deletable =>
          let s := { s with
            threadBuffers := s.threadBuffers.eraseIdx s.i.toNat
            deleted := s.deleted ++ [sb] }
          if s.threadBuffers = [] then some { s with broke := true }
          else { s with i := s.i - 1 }.next

end PollScan

section

variable {β : Type*} (visits : ℕ → Visit β) (threadBuffers : List β)

/-- The pass after at most `n` iterations, if the `k`-th look finds `visits k`. -/
def pollPass : ℕ → Option (PollScan β)
  | 0 => some (.start threadBuffers)
  | n + 1 => (pollPass n).bind fun s => if s.Continues then s.visit (visits n) else some s

/-- The buffers at the start, and those that `n` visits have let the other threads append. -/
def seen (n : ℕ) : List β :=
  threadBuffers ++ (List.range n).flatMap fun k => (visits k).appended

/-- Of some buffers, those whose visits find `keep`. -/
def selected (keep : Visit β → Bool) (buffers : List β) : List β :=
  (buffers.zipIdx.filter fun x => keep (visits x.2)).map Prod.fst

/-- The pass has `n` visits at least. -/
def Lasts (n : ℕ) : Prop := ∀ m < n, m < (seen visits threadBuffers m).length

/-- The pass ends. It has peeked all buffers that it has seen, once each and in order; it has
deleted those found deletable, and the vector holds the others, in order. -/
def ScansOnce : Prop :=
  ∃ n s, pollPass visits threadBuffers n = some s ∧ ¬s.Continues ∧
    s.peeked = seen visits threadBuffers n ∧
    s.deleted = selected visits (fun v => !v.keeps) s.peeked ∧
    s.threadBuffers = selected visits Visit.keeps s.peeked

/-- At no time has the pass kept more buffers than an `int` counts. -/
def FewKept : Prop :=
  ∀ n, Lasts visits threadBuffers n →
    ((List.range n).countP fun k => (visits k).keeps) < 2 ^ 31

end

/-! ### The visits -/

section

variable {β : Type*} {visits : ℕ → Visit β} {threadBuffers : List β} {n : ℕ}

lemma seen_succ (visits : ℕ → Visit β) (threadBuffers : List β) (n : ℕ) :
    seen visits threadBuffers (n + 1) =
      seen visits threadBuffers n ++ (visits n).appended := by
  rw [seen, seen, List.range_succ, List.flatMap_append, List.flatMap_singleton, List.append_assoc]

lemma selected_snoc (keep : Visit β → Bool) (buffers : List β) (b : β) :
    selected visits keep (buffers ++ [b]) =
      selected visits keep buffers ++ if keep (visits buffers.length) then [b] else [] := by
  rw [selected, List.zipIdx_append, List.filter_append, List.map_append, ← selected]
  congr 1
  simp only [List.zipIdx_singleton, Nat.zero_add, List.filter_cons, List.filter_nil]
  split_ifs <;> rfl

lemma length_selected (keep : Visit β → Bool) (buffers : List β) :
    (selected visits keep buffers).length =
      (List.range buffers.length).countP fun k => keep (visits k) := by
  induction buffers using List.reverseRecOn with
  | nil => rfl
  | append_singleton buffers b ih =>
      rw [selected_snoc, List.length_append, ih, List.length_append, List.length_singleton,
        List.range_succ, List.countP_append, List.countP_singleton]
      split_ifs <;> rfl

/-! ### The pass -/

/-- The state after `n` visits: the buffers that were kept stand in front of those still to be
looked at. -/
structure Scanned (visits : ℕ → Visit β) (threadBuffers : List β) (n : ℕ) (s : PollScan β) :
    Prop where
  peeked_eq : s.peeked = (seen visits threadBuffers n).take n
  length_peeked : s.peeked.length = n
  deleted_eq : s.deleted = selected visits (fun v => !v.keeps) s.peeked
  threadBuffers_eq : s.threadBuffers =
    selected visits Visit.keeps s.peeked ++ (seen visits threadBuffers n).drop n
  i_eq : s.i = (selected visits Visit.keeps s.peeked).length
  i_lt : s.i < 2 ^ 31
  threadBuffers_of_broke : s.broke = true → s.threadBuffers = []

lemma scanned_start (visits : ℕ → Visit β) (threadBuffers : List β) :
    Scanned visits threadBuffers 0 (.start threadBuffers) where
  peeked_eq := rfl
  length_peeked := rfl
  deleted_eq := rfl
  threadBuffers_eq := (List.append_nil threadBuffers).symm
  i_eq := rfl
  i_lt := by norm_num [PollScan.start]
  threadBuffers_of_broke h := absurd h Bool.false_ne_true

/-- No work is work that lets nothing be appended. -/
lemma visit_idle (s : PollScan β) : s.visit .idle = s.visit (.work []) := by
  rw [PollScan.visit, PollScan.visit]
  simp only [List.append_nil]

section

variable {s : PollScan β} (h : Scanned visits threadBuffers n s)

include h

lemma Scanned.index_eq : wrapU 64 s.i = (selected visits Visit.keeps s.peeked).length := by
  have hlt := h.i_lt
  rw [h.i_eq] at hlt ⊢
  exact wrapU_natCast (by omega)

/-- The loop goes on exactly if there are buffers to be looked at. -/
lemma Scanned.continues_iff : s.Continues ↔ n < (seen visits threadBuffers n).length := by
  have hlen : s.threadBuffers.length = (selected visits Visit.keeps s.peeked).length +
      ((seen visits threadBuffers n).length - n) := by
    rw [h.threadBuffers_eq, List.length_append, List.length_drop]
  rw [PollScan.Continues, h.index_eq, hlen]
  constructor
  · rintro ⟨-, hlt⟩
    omega
  · intro hlt
    refine ⟨?_, by omega⟩
    by_contra hbroke
    rw [h.threadBuffers_of_broke (Bool.eq_true_of_not_eq_false hbroke), List.length_nil] at hlen
    omega

/-- What is selected of the buffers peeked, with the next one. -/
lemma Scanned.selected_peeked (keep : Visit β → Bool) (sb : β) :
    selected visits keep (s.peeked ++ [sb]) =
      selected visits keep s.peeked ++ if keep (visits n) then [sb] else [] := by
  rw [selected_snoc, h.length_peeked]

variable (hlt : n < (seen visits threadBuffers n).length)

include hlt

/-- The look finds the next of the buffers. -/
lemma Scanned.visited : ∃ sb,
    s.threadBuffers = selected visits Visit.keeps s.peeked ++
        sb :: (seen visits threadBuffers n).drop (n + 1) ∧
      s.threadBuffers[wrapU 64 s.i]? = some sb ∧
      s.peeked ++ [sb] = (seen visits threadBuffers n).take (n + 1) := by
  refine ⟨(seen visits threadBuffers n)[n], ?_, ?_, ?_⟩
  · rw [h.threadBuffers_eq, List.drop_eq_getElem_cons hlt]
  · rw [h.index_eq, h.threadBuffers_eq, List.getElem?_append_right le_rfl, Nat.sub_self,
      List.getElem?_drop, Nat.add_zero, List.getElem?_eq_getElem hlt]
  · rw [h.peeked_eq, List.take_append_getElem hlt]

/-- A buffer that is kept; `i` counts it. -/
lemma Scanned.visit_work {appended : List β} (hkeeps : (visits n).keeps = true)
    (happended : (visits n).appended = appended) :
    (s.i + 1 < 2 ^ 31 →
        ∃ s', s.visit (.work appended) = some s' ∧ Scanned visits threadBuffers (n + 1) s') ∧
      (¬s.i + 1 < 2 ^ 31 → s.visit (.work appended) = none) := by
  obtain ⟨sb, hbuffers, hget, hpeeked⟩ := h.visited hlt
  rw [PollScan.visit, hget]
  simp only [PollScan.next]
  refine ⟨fun hi => ?_, fun hi => if_neg hi⟩
  rw [if_pos hi]
  have hseen := seen_succ visits threadBuffers n
  rw [happended] at hseen
  have hselected := fun keep => h.selected_peeked keep sb
  refine ⟨_, rfl, ?_⟩
  constructor
  · rw [hseen, List.take_append_of_le_length (by omega), hpeeked]
  · rw [List.length_append, h.length_peeked, List.length_singleton]
  · rw [hselected, hkeeps, h.deleted_eq]
    exact (List.append_nil _).symm
  · rw [hselected, hkeeps, hseen, List.drop_append_of_le_length (by omega), hbuffers]
    simp only [if_true, List.append_assoc, List.cons_append, List.nil_append]
  · rw [hselected, hkeeps, h.i_eq]
    simp only [if_true, List.length_append, List.length_singleton, Nat.cast_add, Nat.cast_one]
  · exact hi
  · intro hbroke
    have hnil := h.threadBuffers_of_broke hbroke
    rw [hnil] at hget
    exact absurd hget (by simp)

/-- A buffer that is deleted; the next one takes its place. -/
lemma Scanned.visit_deletable (hvisit : visits n = .deletable) :
    ∃ s', s.visit .deletable = some s' ∧ Scanned visits threadBuffers (n + 1) s' := by
  obtain ⟨sb, hbuffers, hget, hpeeked⟩ := h.visited hlt
  have hseen : seen visits threadBuffers (n + 1) = seen visits threadBuffers n := by
    rw [seen_succ, hvisit]
    exact List.append_nil _
  have hselected := fun keep => h.selected_peeked keep sb
  have hindex : s.i.toNat = (selected visits Visit.keeps s.peeked).length := by
    rw [h.i_eq]
    exact Int.toNat_natCast _
  have herase : s.threadBuffers.eraseIdx s.i.toNat = selected visits Visit.keeps s.peeked ++
      (seen visits threadBuffers n).drop (n + 1) := by
    rw [hbuffers, hindex, List.eraseIdx_append_of_length_le le_rfl, Nat.sub_self,
      List.eraseIdx_cons_zero]
  have hi : s.i - 1 + 1 < 2 ^ 31 := by
    rw [sub_add_cancel]
    exact h.i_lt
  -- all but the index is the same, whether the loop is left or not
  have hpassned : ∀ i : ℤ, i = s.i → ∀ broke : Bool,
      (broke = true → s.threadBuffers.eraseIdx s.i.toNat = []) →
        Scanned visits threadBuffers (n + 1)
          { threadBuffers := s.threadBuffers.eraseIdx s.i.toNat
            i := i
            peeked := s.peeked ++ [sb]
            deleted := s.deleted ++ [sb]
            broke := broke } := by
    rintro i rfl broke hbroke
    constructor
    · rw [hseen, hpeeked]
    · rw [List.length_append, h.length_peeked, List.length_singleton]
    · rw [hselected, hvisit, h.deleted_eq]
      rfl
    · rw [hselected, hvisit, hseen]
      exact herase.trans (by simp [Visit.keeps])
    · rw [hselected, hvisit, h.i_eq]
      simp [Visit.keeps]
    · exact h.i_lt
    · exact hbroke
  rw [PollScan.visit, hget]
  by_cases hnil : s.threadBuffers.eraseIdx s.i.toNat = []
  · dsimp only
    rw [if_pos hnil]
    exact ⟨_, rfl, hpassned _ rfl _ fun _ => hnil⟩
  · simp only [hnil, if_false, PollScan.next, if_pos hi]
    refine ⟨_, rfl, hpassned _ (sub_add_cancel _ _) _ fun hbroke => ?_⟩
    rw [h.threadBuffers_of_broke hbroke, List.eraseIdx_nil]

end

lemma countP_keeps_succ (visits : ℕ → Visit β) (n : ℕ) :
    ((List.range (n + 1)).countP fun k => (visits k).keeps) =
      ((List.range n).countP fun k => (visits k).keeps) + if (visits n).keeps then 1 else 0 := by
  rw [List.range_succ, List.countP_append, List.countP_singleton]

lemma Scanned.i_eq_countP {s : PollScan β} (h : Scanned visits threadBuffers n s) :
    s.i = ((List.range n).countP fun k => (visits k).keeps : ℕ) := by
  rw [h.i_eq, length_selected, h.length_peeked]

/-- **One iteration**, if there is a buffer to be looked at. -/
lemma Scanned.pollPass_succ {s : PollScan β} (hpass : pollPass visits threadBuffers n = some s)
    (h : Scanned visits threadBuffers n s) (hlt : n < (seen visits threadBuffers n).length) :
    (((List.range (n + 1)).countP fun k => (visits k).keeps) < 2 ^ 31 →
        ∃ s', pollPass visits threadBuffers (n + 1) = some s' ∧
          Scanned visits threadBuffers (n + 1) s') ∧
      (¬((List.range (n + 1)).countP fun k => (visits k).keeps) < 2 ^ 31 →
        pollPass visits threadBuffers (n + 1) = none) := by
  have hstep : pollPass visits threadBuffers (n + 1) = s.visit (visits n) := by
    rw [pollPass, hpass, Option.bind_some, if_pos (h.continues_iff.mpr hlt)]
  have hi := h.i_eq_countP
  have hi' := h.i_lt
  rw [hstep, countP_keeps_succ]
  generalize ((List.range n).countP fun k => (visits k).keeps) = count at hi ⊢
  cases hvisit : visits n with
  | work appended =>
      have hwork : (visits n).appended = appended := by
        rw [hvisit]
        rfl
      obtain ⟨hsome, hnone⟩ := h.visit_work hlt (by rw [hvisit]; rfl) hwork
      simp only [Visit.keeps, if_true]
      exact ⟨fun hlt' => hsome (by omega), fun hge => hnone (by omega)⟩
  | idle =>
      have hidle : (visits n).appended = [] := by
        rw [hvisit]
        rfl
      obtain ⟨hsome, hnone⟩ := h.visit_work hlt (by rw [hvisit]; rfl) hidle
      rw [visit_idle]
      simp only [Visit.keeps, if_true]
      exact ⟨fun hlt' => hsome (by omega), fun hge => hnone (by omega)⟩
  | deletable =>
      refine ⟨fun _ => h.visit_deletable hlt hvisit, fun hge => absurd hge ?_⟩
      simp only [Visit.keeps, Bool.false_eq_true, if_false]
      omega

/-- **Run lemma.** -/
lemma exists_scanned (hlasts : Lasts visits threadBuffers n)
    (hfew : ((List.range n).countP fun k => (visits k).keeps) < 2 ^ 31) :
    ∃ s, pollPass visits threadBuffers n = some s ∧ Scanned visits threadBuffers n s := by
  induction n with
  | zero => exact ⟨_, rfl, scanned_start visits threadBuffers⟩
  | succ n ih =>
      have hfew' : ((List.range n).countP fun k => (visits k).keeps) < 2 ^ 31 := by
        rw [countP_keeps_succ] at hfew
        omega
      obtain ⟨s, hpass, hs⟩ := ih (fun m hm => hlasts m (Nat.lt_succ_of_lt hm)) hfew'
      exact (hs.pollPass_succ hpass (hlasts n n.lt_succ_self)).1 hfew

/-- Once it is undefined, the pass stays so. -/
lemma pollPass_none {m : ℕ} (hm : pollPass visits threadBuffers m = none) (hle : m ≤ n) :
    pollPass visits threadBuffers n = none := by
  induction n, hle using Nat.le_induction with
  | base => exact hm
  | succ n _ ih =>
      rw [pollPass, ih]
      rfl

/-- If only finitely many buffers are appended, there is a last one. -/
lemma exists_lasts (hfinite : ∃ N, ∀ k, N ≤ k → (visits k).appended = []) :
    ∃ n, Lasts visits threadBuffers n ∧ (seen visits threadBuffers n).length ≤ n := by
  obtain ⟨N, hN⟩ := hfinite
  have hstays : ∀ k, N ≤ k → seen visits threadBuffers k = seen visits threadBuffers N := by
    intro k hk
    induction k, hk using Nat.le_induction with
    | base => rfl
    | succ k hk ih => rw [seen_succ, ih, hN k hk, List.append_nil]
  have hends : ∃ n, (seen visits threadBuffers n).length ≤ n :=
    ⟨max N (seen visits threadBuffers N).length, by
      rw [hstays _ (le_max_left _ _)]
      exact le_max_right _ _⟩
  classical
  exact ⟨Nat.find hends, fun m hm => not_le.mp (Nat.find_min hends hm), Nat.find_spec hends⟩

/-- If the index overflows, then while there are buffers to be looked at. -/
lemma fewKept_of_scansOnce (h : ScansOnce visits threadBuffers) :
    FewKept visits threadBuffers := by
  obtain ⟨N, s, hpass, hend, -⟩ := h
  intro n hlasts
  induction n with
  | zero => norm_num
  | succ n ih =>
      have hlasts' : Lasts visits threadBuffers n := fun m hm => hlasts m (Nat.lt_succ_of_lt hm)
      obtain ⟨s', hpass', hs'⟩ := exists_scanned hlasts' (ih hlasts')
      by_contra hmany
      have hnone := (hs'.pollPass_succ hpass' (hlasts n n.lt_succ_self)).2 hmany
      rcases Nat.lt_or_ge N (n + 1) with hlt | hge
      · -- the pass has ended before, which it has not
        have hlastsN : Lasts visits threadBuffers N := fun m hm => hlasts m (hm.trans hlt)
        have hle : ((List.range N).countP fun k => (visits k).keeps) ≤
            (List.range n).countP fun k => (visits k).keeps :=
          (List.range_sublist.mpr (Nat.le_of_lt_succ hlt)).countP_le
        obtain ⟨s'', hpass'', hs''⟩ := exists_scanned hlastsN (hle.trans_lt (ih hlasts'))
        obtain rfl := Option.some.inj (hpass.symm.trans hpass'')
        exact hend (hs''.continues_iff.mpr (hlasts N hlt))
      · rw [pollPass_none hnone hge] at hpass
        exact absurd hpass nofun

/-- **The pass** visits every buffer once, and removes exactly those found deletable, exactly if it
keeps so few that the index does not overflow. -/
theorem scansOnce_iff (visits : ℕ → Visit β) (threadBuffers : List β)
    (hfinite : ∃ N, ∀ k, N ≤ k → (visits k).appended = []) :
    ScansOnce visits threadBuffers ↔ FewKept visits threadBuffers := by
  constructor
  · exact fewKept_of_scansOnce
  · intro hfew
    obtain ⟨n, hlasts, hend⟩ : ∃ n, Lasts visits threadBuffers n ∧ _ := exists_lasts hfinite
    obtain ⟨s, hpass, hs⟩ := exists_scanned hlasts (hfew n hlasts)
    refine ⟨n, s, hpass, fun hcontinues => ?_, ?_, hs.deleted_eq, ?_⟩
    · exact absurd (hs.continues_iff.mp hcontinues) (not_lt.mpr hend)
    · rw [hs.peeked_eq, List.take_of_length_le hend]
    · rw [hs.threadBuffers_eq, List.drop_of_length_le hend, List.append_nil]

end

/-- Of three buffers the first has work, and another one is appended meanwhile; the rest goes. -/
theorem scansOnce_appended :
    ScansOnce (fun k => if k = 0 then .work [3] else .deletable) [0, 1, 2] := by
  refine (scansOnce_iff _ _ ⟨1, fun k hk => ?_⟩).mpr fun n hlasts => ?_
  · rw [if_neg (by omega)]
    rfl
  · have hn : n ≤ 4 := by
      by_contra hlt
      exact absurd (hlasts 4 (by omega)) (by decide)
    refine List.countP_le_length.trans_lt ?_
    rw [List.length_range]
    omega

/-- Buffers without work that are all kept. -/
lemma not_scansOnce_idle {β : Type*} {threadBuffers : List β}
    (h : 2 ^ 31 ≤ threadBuffers.length) :
    ¬ScansOnce (fun _ => Visit.idle) threadBuffers := by
  intro hpasss
  have hseen : ∀ n, seen (fun _ => Visit.idle) threadBuffers n = threadBuffers := by
    intro n
    have hnone : (List.range n).flatMap (fun _ => (Visit.idle : Visit β).appended) = [] :=
      List.flatMap_eq_nil_iff.mpr fun _ _ => rfl
    rw [seen, hnone, List.append_nil]
  have hfew := fewKept_of_scansOnce hpasss threadBuffers.length
    fun m hm => (hseen m).symm ▸ hm
  have hall : ((List.range threadBuffers.length).countP fun _ => (Visit.idle : Visit β).keeps) =
      (List.range threadBuffers.length).length := List.countP_eq_length.mpr fun _ _ => rfl
  rw [hall, List.length_range] at hfew
  omega

/-- `int` is too small an index for so many of them. -/
theorem scansOnce_many : ¬ScansOnce (fun _ => Visit.idle) (List.range (2 ^ 31)) :=
  not_scansOnce_idle List.length_range.ge

/-! ### The poll thread -/

namespace Pipeline

variable {names : ℕ → ThreadName} {s t : Pipeline}

/-- How many buffers `poll_` has come to in its pass. -/
def comeTo : PollPc → ℕ
  | .scan i => i
  | .peeking i _ | .append i _ _ | .copying i _ | .consuming i _ | .relock i | .checkDelete i _
  | .delete i _ => i + 1
  | .loopHead | .lock | .exited => 0

lemma comeTo_poll (h : comeTo s.poll ≤ s.threadBuffers.length)
    (ht : s.pollStep names = some t) : comeTo t.poll ≤ t.threadBuffers.length := by
  cases pollStep_cases ht with
  | @peek i sb c hpc hc =>
      cases hget : s.threadBuffers[i]? with
      | some sb' => exact (List.getElem?_eq_some_iff.mp hget).1
      | none =>
          simp only [pollStep, hpc, hget, Option.some.injEq] at ht
          exact absurd (congrArg Pipeline.poll ht) (by simp)
  | @delete i sb pc hpc hto =>
      rw [hpc] at h
      have hlt : i < s.threadBuffers.length := h
      have hlen := List.length_eraseIdx_of_lt hlt
      rcases hto with rfl | rfl
      · exact Nat.zero_le _
      · show i ≤ (s.threadBuffers.eraseIdx i).length
        omega
  | exit | loop | lock | rescan => exact Nat.zero_le _
  | peeking | retry | count => exact h
  | _ hpc =>
      rw [hpc] at h
      exact h

/-- The other parties only add buffers. -/
lemma step_others {a : PipelineAct} (ha : a ≠ .poll) (ht : s.step names a = some t) :
    t.poll = s.poll ∧ s.threadBuffers <+: t.threadBuffers := by
  cases a with
  | poll => exact absurd rfl ha
  | allocate i =>
      simp only [step, Option.ite_none_right_eq_some, Option.some.injEq] at ht
      obtain ⟨-, rfl⟩ := ht
      exact ⟨rfl, List.prefix_rfl⟩
  | register i =>
      simp only [step, Option.ite_none_right_eq_some, Option.some.injEq] at ht
      obtain ⟨-, rfl⟩ := ht
      exact ⟨rfl, List.prefix_append _ _⟩
  | log i a =>
      simp only [step, logStep, Option.ite_none_right_eq_some, Option.map_eq_some_iff] at ht
      obtain ⟨-, c, -, rfl⟩ := ht
      exact ⟨rfl, List.prefix_rfl⟩
  | exit i =>
      simp only [step, exitStep] at ht
      split at ht <;> cases ht <;> exact ⟨rfl, List.prefix_rfl⟩
  | sink a =>
      simp only [step, Option.map_eq_some_iff] at ht
      obtain ⟨k, -, rfl⟩ := ht
      exact ⟨rfl, List.prefix_rfl⟩
  | destroy =>
      simp only [step, destroyStep] at ht
      split at ht <;> (try split_ifs at ht) <;> cases ht <;> exact ⟨rfl, List.prefix_rfl⟩

/-- **The index of `poll_`** does not pass the number of buffers. So it is an `int` while there are
fewer than `2 ^ 31` of them. -/
lemma comeTo_le (h : (machine names).Reachable s) : comeTo s.poll ≤ s.threadBuffers.length := by
  refine Machine.Reachable.invariant (I := fun s => comeTo s.poll ≤ s.threadBuffers.length) h
    (Nat.zero_le _) fun {t u a} hle ht => ?_
  by_cases ha : a = .poll
  · subst ha
    exact comeTo_poll hle ht
  · obtain ⟨hpoll, hadded⟩ := step_others ha ht
    rw [hpoll]
    exact hle.trans hadded.length_le

end Pipeline

/-- The poll thread of `t` is at the step that ends its look at the buffer `sb`, at the index
`i`. -/
inductive EndsLook (t : Pipeline) (i sb : ℕ) : Visit ℕ → Prop
  | work (appended : List ℕ) (hpc : t.poll = .relock i) : EndsLook t i sb (.work appended)
  | idle (hpc : t.poll = .checkDelete i sb)
      (hstays : (t.chans sb).buf.checkCanDelete = false) : EndsLook t i sb .idle
  | delete (hpc : t.poll = .delete i sb) : EndsLook t i sb .deletable

/-- So the index of such a step is small, while there are few buffers. -/
lemma EndsLook.index_lt {names : ℕ → ThreadName} {t : Pipeline} {i sb : ℕ} {v : Visit ℕ}
    (h : EndsLook t i sb v) (hreach : (Pipeline.machine names).Reachable t) :
    i < t.threadBuffers.length := by
  have hle := Pipeline.comeTo_le hreach
  cases h with
  | work appended hpc | idle hpc hstays | delete hpc =>
      rw [hpc] at hle
      exact hle

/-- **`poll_` of the runtime logger** does one iteration of the pass for each buffer. -/
theorem pollStep_visit {names : ℕ → ThreadName} {t : Pipeline} {s : PollScan ℕ} {i sb : ℕ}
    {v : Visit ℕ} (h : EndsLook t i sb v) (hi : s.i = i) (hlt : i + 1 < 2 ^ 31)
    (hbroke : s.broke = false) (hget : s.threadBuffers[i]? = some sb)
    (hbuffers : t.threadBuffers = s.threadBuffers ++ v.appended) :
    ∃ s', s.visit v = some s' ∧
      t.pollStep names = some { t with
        threadBuffers := s'.threadBuffers
        poll := if s'.broke then .loopHead else .scan s'.i.toNat } := by
  have hindex : wrapU 64 s.i = i := by
    rw [hi]
    exact wrapU_natCast (by omega)
  have hnext : s.i + 1 < 2 ^ 31 := by omega
  have hsucc : (s.i + 1).toNat = i + 1 := by omega
  cases h with
  | work appended hpc =>
      have hvisit : s.visit (.work appended) = some { s with
          threadBuffers := s.threadBuffers ++ appended
          i := s.i + 1
          peeked := s.peeked ++ [sb] } := by
        rw [PollScan.visit, hindex, hget]
        exact if_pos hnext
      refine ⟨_, hvisit, ?_⟩
      simp only [Pipeline.pollStep, hpc, hbroke, hsucc, Bool.false_eq_true, if_false]
      rw [← show t.threadBuffers = s.threadBuffers ++ appended from hbuffers]
  | idle hpc hstays =>
      have hvisit : s.visit .idle = some { s with
          i := s.i + 1
          peeked := s.peeked ++ [sb] } := by
        rw [PollScan.visit, hindex, hget]
        exact if_pos hnext
      refine ⟨_, hvisit, ?_⟩
      simp only [Pipeline.pollStep, hpc, hbroke, hsucc, hstays, Bool.false_eq_true, if_false]
      rw [← show t.threadBuffers = s.threadBuffers from hbuffers.trans (List.append_nil _)]
  | delete hpc =>
      have hsame : t.threadBuffers = s.threadBuffers := hbuffers.trans (List.append_nil _)
      have hi' : s.i.toNat = i := by omega
      have hback : s.i - 1 + 1 < 2 ^ 31 := by omega
      have hback' : (s.i - 1 + 1).toNat = i := by omega
      simp only [PollScan.visit, hindex, hget, Pipeline.pollStep, hpc, hsame, hi']
      by_cases hnil : s.threadBuffers.eraseIdx i = []
      · rw [if_pos hnil, if_pos hnil]
        exact ⟨_, rfl, rfl⟩
      · rw [if_neg hnil, if_neg hnil, PollScan.next, if_pos hback]
        refine ⟨_, rfl, ?_⟩
        simp only [hbroke, hback', Bool.false_eq_true, if_false]

/-- While there are fewer than `2 ^ 31` buffers, this is so in every run. -/
theorem pollStep_visit_of_reachable {names : ℕ → ThreadName} {t : Pipeline} {s : PollScan ℕ}
    {i sb : ℕ} {v : Visit ℕ} (hreach : (Pipeline.machine names).Reachable t)
    (hfew : t.threadBuffers.length < 2 ^ 31) (h : EndsLook t i sb v) (hi : s.i = i)
    (hbroke : s.broke = false) (hget : s.threadBuffers[i]? = some sb)
    (hbuffers : t.threadBuffers = s.threadBuffers ++ v.appended) :
    ∃ s', s.visit v = some s' ∧
      t.pollStep names = some { t with
        threadBuffers := s'.threadBuffers
        poll := if s'.broke then .loopHead else .scan s'.i.toNat } := by
  have hlt := h.index_lt hreach
  exact pollStep_visit h hi (by omega) hbroke hget hbuffers

end ConstexprFmtStr
