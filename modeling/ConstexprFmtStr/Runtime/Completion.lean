import Mathlib.Tactic
import ConstexprFmtStr.Runtime.Drain

/-!
The destructor comes to its end (`~RuntimeLogger`, then `~SinkLogger`).

* `Pipeline.PhaseInv`: what the two background threads have done in each phase of the destructor.
* `Pipeline.ending`: the poll thread, the sink thread and the destructor take steps.
* `joins_poll`, `stops_sink`, `joins_sink`: one phase leads to the next.
* `Pipeline.shutdown_completes`: from every reachable state these three can come to the end,
  unless the sink thread was stopped before it began.
-/

namespace ConstexprFmtStr

namespace Pipeline

variable {names : ℕ → ThreadName} {s t u : Pipeline}

/-! ### The phases -/

/-- The sink thread was stopped before it began: its first assert will fail, or has failed. -/
def StoppedEarly (s : Pipeline) : Prop :=
  s.sink.running = false ∧ (s.sink.pc = .start ∨ s.sink.pc = .notRunning)

/-- What the background threads have done in each phase of the destructor. -/
structure PhaseInv (s : Pipeline) : Prop where
  shouldExit : s.destructor ≠ .alive → s.bgThreadShouldExit = true
  pollJoined : s.destructor ≠ .alive → s.destructor ≠ .joinPoll → s.poll = .exited
  running : s.destructor ≠ .joinSink → s.destructor ≠ .done → s.sink.running = true
  stopping : s.destructor = .joinSink → s.sink.running = false
  ongoing : s.sink.running = true → s.sink.pc ≠ .exited ∧ s.sink.pc ≠ .notRunning
  sinkJoined : s.destructor = .done → s.sink.pc = .exited

/-- A step of another party than the destructor. -/
lemma PhaseInv.of_frame (h : s.PhaseInv) (hdestructor : t.destructor = s.destructor)
    (hexit : t.bgThreadShouldExit = s.bgThreadShouldExit)
    (hpoll : s.poll = .exited → t.poll = .exited)
    (hrunning : t.sink.running = s.sink.running)
    (hongoing : s.sink.running = true → t.sink.pc ≠ .exited ∧ t.sink.pc ≠ .notRunning)
    (hpc : s.sink.pc = .exited → t.sink.pc = .exited) : t.PhaseInv where
  shouldExit := by
    rw [hdestructor, hexit]
    exact h.shouldExit
  pollJoined halive hjoin := by
    rw [hdestructor] at halive hjoin
    exact hpoll (h.pollJoined halive hjoin)
  running := by
    rw [hdestructor, hrunning]
    exact h.running
  stopping := by
    rw [hdestructor, hrunning]
    exact h.stopping
  ongoing := by
    rw [hrunning]
    exact hongoing
  sinkJoined hdone := by
    rw [hdestructor] at hdone
    exact hpc (h.sinkJoined hdone)

lemma phaseInv_destroy (h : s.PhaseInv) (ht : s.destroyStep = some t) : t.PhaseInv := by
  cases hd : s.destructor with
  | alive =>
      simp only [destroyStep, hd, Option.some.injEq] at ht
      subst ht
      have hrun := h.running (by simp [hd]) (by simp [hd])
      exact ⟨fun _ => rfl, fun _ hjoin => absurd rfl hjoin, fun _ _ => hrun, by simp, h.ongoing,
        by simp⟩
  | joinPoll =>
      simp only [destroyStep, hd, Option.ite_none_right_eq_some, Option.some.injEq] at ht
      obtain ⟨hpoll, rfl⟩ := ht
      have hrun := h.running (by simp [hd]) (by simp [hd])
      exact ⟨fun _ => h.shouldExit (by simp [hd]), fun _ _ => hpoll, fun _ _ => hrun, by simp,
        h.ongoing, by simp⟩
  | stopSink =>
      have hrun := h.running (by simp [hd]) (by simp [hd])
      simp only [destroyStep, hd, hrun, if_true, Option.some.injEq] at ht
      subst ht
      exact ⟨fun _ => h.shouldExit (by simp [hd]),
        fun _ _ => h.pollJoined (by simp [hd]) (by simp [hd]), fun hjoin _ => absurd rfl hjoin,
        fun _ => rfl, by simp, by simp⟩
  | joinSink =>
      simp only [destroyStep, hd, Option.ite_none_right_eq_some, Option.some.injEq] at ht
      obtain ⟨hpc, rfl⟩ := ht
      exact ⟨fun _ => h.shouldExit (by simp [hd]),
        fun _ _ => h.pollJoined (by simp [hd]) (by simp [hd]), fun _ hdone => absurd rfl hdone,
        by simp, h.ongoing, fun _ => hpc⟩
  | done =>
      simp only [destroyStep, hd] at ht
      cases ht

lemma step_phaseInv (h : s.PhaseInv) {a : PipelineAct} (ht : s.step names a = some t) :
    t.PhaseInv := by
  cases a with
  | allocate i =>
      simp only [step, Option.ite_none_right_eq_some, Option.some.injEq] at ht
      obtain ⟨-, rfl⟩ := ht
      exact h.of_frame rfl rfl id rfl h.ongoing id
  | register i =>
      simp only [step, Option.ite_none_right_eq_some, Option.some.injEq] at ht
      obtain ⟨-, rfl⟩ := ht
      exact h.of_frame rfl rfl id rfl h.ongoing id
  | log i a =>
      simp only [step, logStep, Option.ite_none_right_eq_some, Option.map_eq_some_iff] at ht
      obtain ⟨-, c, -, rfl⟩ := ht
      exact h.of_frame rfl rfl id rfl h.ongoing id
  | exit i =>
      simp only [step, exitStep] at ht
      split at ht <;> cases ht <;> exact h.of_frame rfl rfl id rfl h.ongoing id
  | poll =>
      have hst : s.pollStep names = some t := ht
      obtain ⟨⟨-, hdestructor, hexit, -⟩, hsink, -⟩ := pollStep_frame hst
      have hframe : t.sink.pc = s.sink.pc ∧ t.sink.running = s.sink.running := by
        rcases hsink with hsink | ⟨a, hk⟩
        · rw [hsink]
          exact ⟨rfl, rfl⟩
        · exact Sink.appenderStep_frame hk
      refine h.of_frame hdestructor hexit (fun hpc => ?_) hframe.2 ?_ ?_
      · simp only [pollStep, hpc] at hst
        cases hst
      · rw [hframe.1]
        exact h.ongoing
      · rw [hframe.1]
        exact id
  | sink a =>
      simp only [step, Option.map_eq_some_iff] at ht
      obtain ⟨k, hk, rfl⟩ := ht
      obtain ⟨-, hnot, hexited⟩ := Sink.threadStep_pc hk
      refine h.of_frame rfl rfl id (Sink.threadStep_frame hk).2.2.2.2.1 (fun hrun => ?_)
        fun hpc => ?_
      · refine ⟨fun hpc => ?_, fun hpc => ?_⟩
        · exact absurd ((hexited hpc).2.2.symm.trans hrun) (by simp)
        · exact absurd ((hnot hpc).2.symm.trans hrun) (by simp)
      · simp only [Sink.threadStep, hpc] at hk
        cases hk
  | destroy => exact phaseInv_destroy h ht

lemma reachable_phaseInv (h : (machine names).Reachable s) : s.PhaseInv :=
  h.invariant (I := PhaseInv) ⟨by simp [machine, new], by simp [machine, new],
    fun _ _ => rfl, by simp [machine, new], fun _ => ⟨by simp [machine, new, Sink.new],
    by simp [machine, new, Sink.new]⟩, by simp [machine, new]⟩ fun hI ht => step_phaseInv hI ht

/-! ### From phase to phase -/

/-- The poll thread, the sink thread or the destructor takes a step. -/
def ending : Pipeline → PipelineAct → Prop := fun s a => background s a ∨ a = .destroy

lemma ending_of_background (h : (machine names).Reaches background s t) :
    (machine names).Reaches ending s t := h.mono fun _ _ => .inl

lemma ending_of_destroy (ht : s.destroyStep = some t) : (machine names).Reaches ending s t :=
  .single (.inr rfl) (show (machine names).step s .destroy = some t from ht)

/-- The state is reachable, and the destructor stands at `d`. -/
structure InPhase (names : ℕ → ThreadName) (d : DestructorPc) (s : Pipeline) : Prop where
  reachable : (machine names).Reachable s
  destructor_eq : s.destructor = d

/-- The destructor takes its next step. -/
lemma InPhase.step {d d' : DestructorPc} (h : s.InPhase names d) (ht : s.destroyStep = some t)
    (hd' : t.destructor = d') : t.InPhase names d' :=
  ⟨h.reachable.step (show (machine names).step s .destroy = some t from ht), hd'⟩

/-- What the background threads do leaves the destructor where it is. -/
lemma InPhase.background {d : DestructorPc} (h : s.InPhase names d)
    (hst : (machine names).Reaches background s t) : t.InPhase names d := by
  refine hst.invariant (I := InPhase names d) h fun {u v a} hu hG hv => ?_
  exact ⟨hu.reachable.step hv, (onward_step hG hv).destructor_eq.trans hu.destructor_eq⟩

/-- Until it is stopped the sink thread goes round. -/
lemma InPhase.running {d : DestructorPc} (h : s.InPhase names d) (hjoin : d ≠ .joinSink)
    (hdone : d ≠ .done) : s.Running names := by
  have hphase := reachable_phaseInv h.reachable
  have hrun := hphase.running (by rwa [h.destructor_eq]) (by rwa [h.destructor_eq])
  obtain ⟨hexited, hnot⟩ := hphase.ongoing hrun
  exact ⟨h.reachable, hrun, hexited, hnot⟩

/-- Behind the poll thread `mutex_` is free. -/
lemma InPhase.unlocked {d : DestructorPc} (h : s.InPhase names d) (halive : d ≠ .alive)
    (hjoin : d ≠ .joinPoll) : s.sink.Unlocked := by
  have hinv := reachable_inv h.reachable
  have hexited := (reachable_phaseInv h.reachable).pollJoined (by rwa [h.destructor_eq])
    (by rwa [h.destructor_eq])
  have happ := hinv.poll
  rw [hexited] at happ
  exact ⟨⟨hinv.sink, fun blk hblk => (hinv.named blk hblk).2⟩, happ⟩

/-- The destructor begins. -/
lemma begins (names : ℕ → ThreadName) :
    (machine names).LeadsTo ending (InPhase names .alive) (InPhase names .joinPoll) := by
  intro s h
  obtain ⟨t, ht, hd⟩ : ∃ t, s.destroyStep = some t ∧ t.destructor = .joinPoll := by
    simp [destroyStep, h.destructor_eq]
  exact ⟨t, ending_of_destroy ht, h.step ht hd⟩

/-- `bgThread.join()` returns: `poll_` comes to the head of its loop, and there it ends. -/
lemma joins_poll (names : ℕ → ThreadName) :
    (machine names).LeadsTo ending (InPhase names .joinPoll) (InPhase names .stopSink) := by
  have hjoin {s : Pipeline} (h : s.InPhase names .joinPoll) (hpc : s.poll = .exited) :
      ∃ t, (machine names).Reaches ending s t ∧ t.InPhase names .stopSink := by
    have ht : s.destroyStep = some { s with destructor := .stopSink } := by
      simp [destroyStep, h.destructor_eq, hpc]
    exact ⟨_, ending_of_destroy ht, h.step ht rfl⟩
  intro s h
  by_cases hpc : s.poll = .exited
  · exact hjoin h hpc
  · obtain ⟨t, hst, ht⟩ := poll_toLoopHead (h.running (by simp) (by simp)) hpc
    have hphase := h.background hst
    have hexit := (reachable_phaseInv hphase.reachable).shouldExit (by simp [hphase.destructor_eq])
    have hlast : (machine names).Reaches background t { t with poll := .exited } :=
      background_of_poll (by simp [pollStep, ht, hexit])
    obtain ⟨u, htu, hu⟩ := hjoin (hphase.background hlast) rfl
    exact ⟨u, (ending_of_background (hst.trans hlast)).trans htu, hu⟩

/-- `stop()`, once the sink thread has begun. -/
lemma stops_sink (names : ℕ → ThreadName) :
    (machine names).LeadsTo ending (InPhase names .stopSink)
      fun s => s.InPhase names .joinSink ∧ ¬s.StoppedEarly := by
  intro s h
  have hrunning := h.running (by simp) (by simp)
  have hunlocked := h.unlocked (by simp) (by simp)
  obtain ⟨k, hk, hpc⟩ := (hrunning.turning hunlocked.app_eq).toLoopHead
  have hphase := h.background (background_of_sink hk)
  have hrun : k.running = true := (hphase.running (by simp) (by simp)).running_eq
  have ht : ({ s with sink := k } : Pipeline).destroyStep =
      some { s with sink := { k with running := false }, destructor := .joinSink } := by
    simp [destroyStep, h.destructor_eq, hrun]
  refine ⟨_, (ending_of_background (background_of_sink hk)).trans (ending_of_destroy ht),
    hphase.step ht rfl, fun hearly => ?_⟩
  rcases hearly.2 with hstart | hnot
  · exact absurd (hpc.symm.trans hstart) (by simp)
  · exact absurd (hpc.symm.trans hnot) (by simp)

/-- `thread_.join()` returns: the sink thread finishes its round, and there it ends. -/
lemma joins_sink (names : ℕ → ThreadName) :
    (machine names).LeadsTo ending (fun s => s.InPhase names .joinSink ∧ ¬s.StoppedEarly)
      fun s => s.destructor = .done := by
  have hjoin {s : Pipeline} (h : s.InPhase names .joinSink) (hpc : s.sink.pc = .exited) :
      ∃ t, (machine names).Reaches ending s t ∧ t.destructor = .done := by
    have ht : s.destroyStep = some { s with destructor := .done } := by
      simp [destroyStep, h.destructor_eq, hpc]
    exact ⟨_, ending_of_destroy ht, rfl⟩
  rintro s ⟨h, hearly⟩
  have hstopped := (reachable_phaseInv h.reachable).stopping h.destructor_eq
  by_cases hpc : s.sink.pc = .exited
  · exact hjoin h hpc
  · have hunlocked := h.unlocked (by simp) (by simp)
    obtain ⟨k, hk, hhead⟩ := hunlocked.toLoopHead (fun hstart => hearly ⟨hstopped, .inl hstart⟩)
      hpc fun hnot => hearly ⟨hstopped, .inr hnot⟩
    have hrun : k.running = false := ((hunlocked.of_reaches hk).2.2).trans hstopped
    have hlast : k.threadStep .advance = some { k with pc := .exited } := by
      simp [Sink.threadStep, hhead, hrun]
    have hreach := hk.tail (a := .thread .advance) ⟨_, rfl⟩
      (show Sink.machine.step k (.thread .advance) = _ from hlast)
    obtain ⟨t, hst, ht⟩ := hjoin (h.background (background_of_sink hreach)) rfl
    exact ⟨t, (ending_of_background (background_of_sink hreach)).trans hst, ht⟩

/-! ### The end -/

/-- A sink thread that was stopped before it began never ends its loop. -/
lemma StoppedEarly.step (h : s.StoppedEarly) {a : PipelineAct} (ht : s.step names a = some t) :
    t.StoppedEarly := by
  cases a with
  | allocate i =>
      simp only [Pipeline.step, Option.ite_none_right_eq_some, Option.some.injEq] at ht
      obtain ⟨-, rfl⟩ := ht
      exact h
  | register i =>
      simp only [Pipeline.step, Option.ite_none_right_eq_some, Option.some.injEq] at ht
      obtain ⟨-, rfl⟩ := ht
      exact h
  | log i a =>
      simp only [Pipeline.step, logStep, Option.ite_none_right_eq_some,
        Option.map_eq_some_iff] at ht
      obtain ⟨-, c, -, rfl⟩ := ht
      exact h
  | exit i =>
      simp only [Pipeline.step, exitStep] at ht
      split at ht <;> cases ht <;> exact h
  | poll =>
      obtain ⟨-, hsink, -⟩ := pollStep_frame (show s.pollStep names = some t from ht)
      rcases hsink with hsink | ⟨a, hk⟩
      · rw [StoppedEarly, hsink]
        exact h
      · rw [StoppedEarly, (Sink.appenderStep_frame hk).1, (Sink.appenderStep_frame hk).2]
        exact h
  | sink a =>
      simp only [Pipeline.step, Option.map_eq_some_iff] at ht
      obtain ⟨k, hk, rfl⟩ := ht
      obtain ⟨hrun, hpc | hpc⟩ := h
      · cases a <;> simp [Sink.threadStep, hpc, hrun] at hk
        subst hk
        exact ⟨rfl, .inr rfl⟩
      · simp only [Sink.threadStep, hpc] at hk
        cases hk
  | destroy =>
      simp only [Pipeline.step, destroyStep] at ht
      split at ht
      · cases ht
        exact h
      · split_ifs at ht
        cases ht
        exact h
      · rw [if_neg (by simp [h.1])] at ht
        cases ht
        exact h
      · split_ifs at ht
        cases ht
        exact h
      · cases ht

/-- **The destructor comes to its end.** From every reachable state, whatever its threads are
doing, the poll thread, the sink thread and the destructor alone can come to the end of
`~RuntimeLogger` and `~SinkLogger` if and only if the sink thread was not stopped before it
began. -/
theorem shutdown_completes (h : (machine names).Reachable s) :
    (∃ t, (machine names).Reaches ending s t ∧ t.destructor = .done) ↔ ¬s.StoppedEarly := by
  constructor
  · rintro ⟨t, hst, ht⟩ hearly
    have hend : t.StoppedEarly := hst.invariant (I := StoppedEarly) hearly fun hI _ => hI.step
    have hexited := (reachable_phaseInv (h.reaches (hst.mono fun _ _ _ => trivial))).sinkJoined ht
    rcases hend.2 with hpc | hpc
    · exact absurd (hexited.symm.trans hpc) (by simp)
    · exact absurd (hexited.symm.trans hpc) (by simp)
  · intro hearly
    have hlast := (stops_sink names).trans (joins_sink names)
    cases hd : s.destructor with
    | alive => exact (((begins names).trans (joins_poll names)).trans hlast) s ⟨h, hd⟩
    | joinPoll => exact ((joins_poll names).trans hlast) s ⟨h, hd⟩
    | stopSink => exact hlast s ⟨h, hd⟩
    | joinSink => exact joins_sink names s ⟨⟨h, hd⟩, hearly⟩
    | done => exact ⟨s, .refl, hd⟩

/-- The destructor begins while an entry of the thread `0` is in its staging buffer. -/
theorem shutdown_completes_publishSample : ∃ s t,
    (machine sampleNames).exec new (publishSample ++ [.destroy]) = some s ∧
      s.destructor = .joinPoll ∧ (machine sampleNames).Reaches ending s t ∧
      t.destructor = .done := by
  have hrun : (machine sampleNames).exec new (publishSample ++ [.destroy]) = some _ := rfl
  obtain ⟨t, hst, ht⟩ := (shutdown_completes (Machine.reachable_of_exec hrun)).mpr
    fun hearly => absurd (show true = false from hearly.1) (by simp)
  exact ⟨_, t, hrun, rfl, hst, ht⟩

end Pipeline

end ConstexprFmtStr
