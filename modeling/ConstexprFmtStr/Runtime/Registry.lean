import Mathlib.Tactic
import ConstexprFmtStr.Runtime.Drain

/-!
`threadBuffers`, and the life of a staging buffer in it.

* `Pipeline.Registry`: a staging buffer is in `threadBuffers` once at most, and only after its
  thread has registered it.
* `Pipeline.InHand`: `poll_` has a staging buffer in hand.
* `Pipeline.Gone`: a staging buffer that nobody reaches any more; `step_gone`.
* `Pipeline.deleted_untouched`: after its `delete` a staging buffer is not touched again, by
  `poll_` or by a logging thread.
-/

namespace ConstexprFmtStr

open Slice Word

namespace Pipeline

variable {names : ℕ → ThreadName} {s t u : Pipeline}

/-- What `threadBuffers` holds. -/
structure Registry (s : Pipeline) : Prop where
  nodup : s.threadBuffers.Nodup
  registered : ∀ i ∈ s.threadBuffers, s.threads i = .logging ∨ s.threads i = .exited

/-- `poll_` has the staging buffer `sb` in hand. -/
def InHand : PollPc → ℕ → Prop
  | .peeking _ sb', sb | .append _ sb' _, sb | .copying _ sb', sb => sb = sb'
  | .consuming _ sb', sb | .checkDelete _ sb', sb | .delete _ sb', sb => sb = sb'
  | _, _ => False

/-- Nobody reaches the staging buffer `sb` any more, and it is as it was in `c`. -/
structure Gone (sb : ℕ) (c : Channel) (s : Pipeline) : Prop where
  exited : s.threads sb = .exited
  notMem : sb ∉ s.threadBuffers
  not_inHand : ¬InHand s.poll sb
  chan_eq : s.chans sb = c

/-! ### One step -/

/-- The phases of a thread come one after the other. -/
lemma step_threads {a : PipelineAct} (ht : s.step names a = some t) (i : ℕ) :
    t.threads i = s.threads i ∨ s.threads i = .fresh ∧ t.threads i = .allocated ∨
      s.threads i = .allocated ∧ t.threads i = .logging ∨
        s.threads i = .logging ∧ t.threads i = .exited := by
  have hother {j : ℕ} (p : ThreadPhase) (hj : i ≠ j) :
      Function.update s.threads j p i = s.threads i := Function.update_of_ne hj ..
  cases a with
  | allocate j =>
      simp only [step, Option.ite_none_right_eq_some, Option.some.injEq] at ht
      obtain ⟨hj, rfl⟩ := ht
      by_cases hij : i = j
      · subst hij
        exact .inr (.inl ⟨hj, Function.update_self ..⟩)
      · exact .inl (hother _ hij)
  | register j =>
      simp only [step, Option.ite_none_right_eq_some, Option.some.injEq] at ht
      obtain ⟨⟨hj, -⟩, rfl⟩ := ht
      by_cases hij : i = j
      · subst hij
        exact .inr (.inr (.inl ⟨hj, Function.update_self ..⟩))
      · exact .inl (hother _ hij)
  | log j a =>
      simp only [step, logStep, Option.ite_none_right_eq_some, Option.map_eq_some_iff] at ht
      obtain ⟨-, c, -, rfl⟩ := ht
      exact .inl rfl
  | exit j =>
      obtain ⟨hj, hthreads, -⟩ := exitStep_frame (show s.exitStep j = some t from ht)
      by_cases hij : i = j
      · subst hij
        exact .inr (.inr (.inr ⟨hj, by rw [hthreads, Function.update_self]⟩))
      · exact .inl (by rw [hthreads, hother _ hij])
  | poll =>
      obtain ⟨⟨hthreads, -⟩, -⟩ := pollStep_frame (show s.pollStep names = some t from ht)
      exact .inl (by rw [hthreads])
  | sink a =>
      simp only [step, Option.map_eq_some_iff] at ht
      obtain ⟨k, -, rfl⟩ := ht
      exact .inl rfl
  | destroy =>
      simp only [step, destroyStep] at ht
      split at ht <;> (try split_ifs at ht) <;> cases ht <;> exact .inl rfl

lemma step_exited {a : PipelineAct} (ht : s.step names a = some t) {i : ℕ}
    (hi : s.threads i = .exited) : t.threads i = .exited := by
  rcases step_threads ht i with hsame | ⟨h, -⟩ | ⟨h, -⟩ | ⟨-, h⟩
  · rw [hsame, hi]
  · rw [hi] at h
    cases h
  · rw [hi] at h
    cases h
  · exact h

/-- Only a registration adds to `threadBuffers`, and only `poll_` takes out of it. -/
lemma step_threadBuffers {a : PipelineAct} (ht : s.step names a = some t) :
    t.threadBuffers = s.threadBuffers ∨
      (∃ i, a = .register i ∧ s.threads i = .allocated ∧
        t.threadBuffers = s.threadBuffers ++ [i] ∧ t.threads i = .logging) ∨
      ∃ i sb, a = .poll ∧ s.poll = .delete i sb ∧ t.threadBuffers = s.threadBuffers.eraseIdx i := by
  cases a with
  | register i =>
      simp only [step, Option.ite_none_right_eq_some, Option.some.injEq] at ht
      obtain ⟨⟨hi, -⟩, rfl⟩ := ht
      exact .inr (.inl ⟨i, rfl, hi, rfl, Function.update_self ..⟩)
  | poll =>
      rcases threadBuffers_poll (show s.pollStep names = some t from ht) with
        hsame | ⟨i, sb, hpc, herase, -⟩
      · exact .inl hsame
      · exact .inr (.inr ⟨i, sb, rfl, hpc, herase⟩)
  | allocate i =>
      simp only [step, Option.ite_none_right_eq_some, Option.some.injEq] at ht
      obtain ⟨-, rfl⟩ := ht
      exact .inl rfl
  | log i a =>
      simp only [step, logStep, Option.ite_none_right_eq_some, Option.map_eq_some_iff] at ht
      obtain ⟨-, c, -, rfl⟩ := ht
      exact .inl rfl
  | exit i =>
      simp only [step, exitStep] at ht
      split at ht <;> cases ht <;> exact .inl rfl
  | sink a =>
      simp only [step, Option.map_eq_some_iff] at ht
      obtain ⟨k, -, rfl⟩ := ht
      exact .inl rfl
  | destroy =>
      simp only [step, destroyStep] at ht
      split at ht <;> (try split_ifs at ht) <;> cases ht <;> exact .inl rfl

/-- Every step keeps `threadBuffers` in order. -/
lemma step_registry (h : s.Registry) {a : PipelineAct} (ht : s.step names a = some t) :
    t.Registry := by
  have hkept {i : ℕ} (hi : s.threads i = .logging ∨ s.threads i = .exited) :
      t.threads i = .logging ∨ t.threads i = .exited := by
    rcases step_threads ht i with hsame | ⟨hs, -⟩ | ⟨hs, -⟩ | ⟨-, hexited⟩
    · rwa [hsame]
    · rw [hs] at hi
      exact absurd hi (by simp)
    · rw [hs] at hi
      exact absurd hi (by simp)
    · exact .inr hexited
  rcases step_threadBuffers ht with hsame | ⟨i, -, hi, hmore, hlogging⟩ | ⟨k, sb, -, -, herase⟩
  · refine ⟨by rw [hsame]; exact h.nodup, fun i hi => hkept (h.registered i ?_)⟩
    rwa [← hsame]
  · have hnew : i ∉ s.threadBuffers := by
      intro hmem
      rcases h.registered i hmem with hs | hs <;> rw [hs] at hi <;> cases hi
    refine ⟨?_, fun j hj => ?_⟩
    · rw [hmore]
      exact List.nodup_append.mpr ⟨h.nodup, List.nodup_singleton i, fun j hj k hk => by
        rw [List.mem_singleton.mp hk]
        rintro rfl
        exact hnew hj⟩
    · rw [hmore, List.mem_append, List.mem_singleton] at hj
      rcases hj with hj | rfl
      · exact hkept (h.registered j hj)
      · exact .inl hlogging
  · refine ⟨?_, fun j hj => ?_⟩
    · rw [herase]
      exact h.nodup.sublist (List.eraseIdx_sublist ..)
    · rw [herase] at hj
      exact hkept (h.registered j ((List.eraseIdx_sublist ..).subset hj))

/-- What is not in `threadBuffers` and not in the hands of `poll_` stays so. -/
lemma poll_untouched {sb : ℕ} (hnot : sb ∉ s.threadBuffers) (hhand : ¬InHand s.poll sb)
    (ht : s.pollStep names = some t) : ¬InHand t.poll sb ∧ t.chans sb = s.chans sb := by
  have hset {sb' : ℕ} (c : Channel) (hne : sb ≠ sb') : (s.setChan sb' c).chans sb = s.chans sb := by
    rw [setChan_chans, if_neg hne]
  cases pollStep_cases ht with
  | @peek i sb' c hpc hc =>
      have hne : sb ≠ sb' := by
        rintro rfl
        rcases (pollStep_visits ht rfl).2 with hpc' | hmem
        · rw [hpc] at hpc'
          cases hpc'
        · exact hnot (List.mem_of_getElem? hmem)
      exact ⟨hne, hset c hne⟩
  | peeking hpc hc | consume hpc hc =>
      rw [hpc] at hhand
      exact ⟨by first | exact hhand | (show ¬InHand s.poll sb; rw [hpc]; exact hhand), hset _ hhand⟩
  | copy hpc happ hcons hk hc =>
      rw [hpc] at hhand
      exact ⟨hhand, hset _ hhand⟩
  | found hpc | foundNothing hpc | append hpc | checkDelete hpc =>
      rw [hpc] at hhand
      exact ⟨hhand, rfl⟩
  | delete hpc hto =>
      rcases hto with rfl | rfl <;> exact ⟨id, rfl⟩
  | retry hpc | count hpc => exact ⟨hhand, rfl⟩
  | _ => exact ⟨id, rfl⟩

lemma registry_new : new.Registry := ⟨List.nodup_nil, by simp [new]⟩

lemma reachable_registry (h : (machine names).Reachable s) : s.Registry :=
  Machine.Reachable.invariant h registry_new fun hI hst => step_registry hI hst

/-- **Nobody reaches it again**: not the thread, which has ended, and not `poll_`. -/
lemma step_gone {sb : ℕ} {c : Channel} (h : s.Gone sb c) {a : PipelineAct}
    (ht : s.step names a = some t) : t.Gone sb c := by
  have hnotMem : sb ∉ t.threadBuffers := by
    rcases step_threadBuffers ht with hsame | ⟨i, -, hi, hmore, -⟩ | ⟨k, sb', -, -, herase⟩
    · rw [hsame]
      exact h.notMem
    · rw [hmore, List.mem_append, List.mem_singleton]
      rintro (hmem | rfl)
      · exact h.notMem hmem
      · rw [h.exited] at hi
        cases hi
    · rw [herase]
      exact fun hmem => h.notMem ((List.eraseIdx_sublist ..).subset hmem)
  obtain ⟨hhand, hchan⟩ : ¬InHand t.poll sb ∧ t.chans sb = s.chans sb := by
    cases a with
    | poll => exact poll_untouched h.notMem h.not_inHand ht
    | log i a =>
        simp only [step, logStep, Option.ite_none_right_eq_some, Option.map_eq_some_iff] at ht
        obtain ⟨⟨hi, -⟩, c', -, rfl⟩ := ht
        refine ⟨h.not_inHand, ?_⟩
        rw [setChan_chans, if_neg]
        rintro rfl
        rw [h.exited] at hi
        cases hi
    | exit i =>
        obtain ⟨hi, -, hpoll, -, hother, -⟩ := exitStep_frame (show s.exitStep i = some t from ht)
        refine ⟨by rw [hpoll]; exact h.not_inHand, hother sb ?_⟩
        rintro rfl
        rw [h.exited] at hi
        cases hi
    | allocate i =>
        simp only [step, Option.ite_none_right_eq_some, Option.some.injEq] at ht
        obtain ⟨-, rfl⟩ := ht
        exact ⟨h.not_inHand, rfl⟩
    | register i =>
        simp only [step, Option.ite_none_right_eq_some, Option.some.injEq] at ht
        obtain ⟨-, rfl⟩ := ht
        exact ⟨h.not_inHand, rfl⟩
    | sink a =>
        simp only [step, Option.map_eq_some_iff] at ht
        obtain ⟨k, -, rfl⟩ := ht
        exact ⟨h.not_inHand, rfl⟩
    | destroy =>
        simp only [step, destroyStep] at ht
        split at ht <;> (try split_ifs at ht) <;> cases ht <;> exact ⟨h.not_inHand, rfl⟩
  exact ⟨step_exited ht h.exited, hnotMem, hhand, hchan.trans h.chan_eq⟩

/-- **No use after `delete`.** When `poll_` deletes a staging buffer its thread has ended, and in
every state of every later run the buffer is not in `threadBuffers`, not in the hands of `poll_`,
and untouched. -/
theorem deleted_untouched (h : (machine names).Reachable s) {i sb : ℕ} (hpc : s.poll = .delete i sb)
    (ht : (machine names).step s .poll = some t)
    (hu : (machine names).Reaches Machine.anyStep t u) :
    u.threads sb = .exited ∧ sb ∉ u.threadBuffers ∧ ¬InHand u.poll sb ∧
      u.chans sb = s.chans sb := by
  obtain ⟨hinv, hrun⟩ := reachable_runInv h
  have hst : s.pollStep names = some t := ht
  have hexited := hrun.flag sb (hrun.deleting i sb hpc)
  have hsb := hrun.visits i sb (.inr (.inr hpc))
  have hgone : t.Gone sb (s.chans sb) := by
    simp only [pollStep, hpc, Option.some.injEq] at hst
    subst hst
    refine ⟨hexited, fun hmem => ?_, ?_, rfl⟩
    · -- it stood at one index only
      obtain ⟨j, hj, hjsb⟩ := List.mem_eraseIdx_iff_getElem?.mp hmem
      have hlt := (List.getElem?_eq_some_iff.mp hsb).1
      exact hj ((List.getElem?_inj hlt (reachable_registry h).nodup).mp (hsb.trans hjsb.symm)).symm
    · dsimp only
      split_ifs <;> exact id
  have hlast := Machine.Reaches.invariant (I := fun u => u.Gone sb (s.chans sb)) hu hgone
    fun hI _ hst => step_gone hI hst
  exact ⟨hlast.exited, hlast.notMem, hlast.not_inHand, hlast.chan_eq⟩

/-- The thread `0` ends without a log call, and `poll_` comes to the `delete`. -/
def deleteSample : List PipelineAct :=
  [.allocate 0, .register 0, .exit 0] ++ List.replicate 6 .poll

/-- Meanwhile another thread publishes an entry, and `poll_` comes to append it. -/
def laterSample : List PipelineAct :=
  [.allocate 1] ++ List.replicate 3 .poll ++ [.register 1] ++
    logSample 1 0 Sink.sampleEntry ++ List.replicate 9 .poll

theorem deleted_untouched_deleteSample : ∃ s t u,
    (machine sampleNames).exec new deleteSample = some s ∧ s.poll = .delete 0 0 ∧
      (machine sampleNames).step s .poll = some t ∧
      (machine sampleNames).exec t laterSample = some u ∧ u.threadBuffers = [1] ∧
      0 ∉ u.threadBuffers ∧ u.chans 0 = s.chans 0 := by
  have hrun : (machine sampleNames).exec new deleteSample = some _ := rfl
  have hreachable := Machine.reachable_of_exec hrun
  obtain ⟨-, hnot, -, hsame⟩ := deleted_untouched hreachable rfl rfl
    (Machine.reaches_of_exec (fun _ _ _ => trivial)
      (show (machine sampleNames).exec _ laterSample = some _ from rfl))
  exact ⟨_, _, _, hrun, rfl, rfl, rfl, rfl, hnot, hsame⟩

end Pipeline

end ConstexprFmtStr
