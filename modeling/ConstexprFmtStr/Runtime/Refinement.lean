import Mathlib.Tactic
import ConstexprFmtStr.Lib.FanIn
import ConstexprFmtStr.Runtime.Shutdown

/-!
What the runtime logger is for: it refines the ideal of a logger with many writers.

* `Pipeline.fanIn`: a state of the runtime logger as one of that ideal. A message is an entry with
  the name of its thread; it is sent when `finishReservation` publishes it, and received when
  `threadFunc` formats it.
* `Pipeline.refines_fanIn`: every step of the logging threads, of the poll thread, of the sink
  thread and of the destructor sends one entry, formats the next entry of one thread, or changes
  nothing that can be seen.
-/

namespace ConstexprFmtStr

open Slice Framing Merged

namespace Sink

variable {s t : Sink}

/-- A step of the sink thread formats one line at most. -/
lemma threadStep_formatted {a : SinkThreadAct} (ht : s.threadStep a = some t) :
    t.formatted = s.formatted ∨ ∃ l, t.formatted = s.formatted ++ [l] := by
  have hswap (timeout : Bool) : (s.swapSection timeout).formatted = s.formatted := by
    unfold swapSection
    split
    · rfl
    · simp only [refillNext, swapBuffers, queueCurrent]
      split_ifs <;> split <;> rfl
  cases hpc : s.pc with
  | entries i k bufLen hdr pos remaining =>
      cases a <;> simp only [threadStep, hpc, Option.map_eq_some_iff, reduceCtorEq] at ht
      obtain ⟨b, -, rfl⟩ := ht
      split_ifs
      · unfold parseEntry
        split
        · dsimp only
          split
          · split_ifs
            · exact .inr ⟨_, rfl⟩
            · exact .inl rfl
          · exact .inl rfl
        · exact .inl rfl
      · exact .inl rfl
  | parse i k bufLen pos =>
      cases a <;> simp only [threadStep, hpc, Option.map_eq_some_iff, reduceCtorEq] at ht
      obtain ⟨b, -, rfl⟩ := ht
      split_ifs <;> exact .inl rfl
  | lock =>
      cases a <;> cases happ : s.app <;>
        simp only [threadStep, hpc, happ, Option.some.injEq, reduceCtorEq] at ht
      subst ht
      split_ifs
      · exact .inl rfl
      · exact .inl (hswap false)
  | waiting =>
      cases a <;> cases happ : s.app <;>
        simp only [threadStep, hpc, happ, Option.some.injEq, reduceCtorEq] at ht
      subst ht
      exact .inl (hswap _)
  | refill1 =>
      cases a <;> simp only [threadStep, hpc, Option.some.injEq, reduceCtorEq] at ht
      subst ht
      split <;> exact .inl rfl
  | refill2 =>
      cases a <;> simp only [threadStep, hpc, Option.some.injEq, reduceCtorEq] at ht
      subst ht
      split <;> exact .inl rfl
  | start =>
      cases a <;> simp only [threadStep, hpc, Option.some.injEq, reduceCtorEq] at ht
      subst ht
      split_ifs <;> exact .inl rfl
  | _ =>
      cases a <;> simp only [threadStep, hpc, Option.some.injEq, reduceCtorEq] at ht
      all_goals
        subst ht
        exact .inl rfl

end Sink

namespace Pipeline

variable {names : ℕ → ThreadName} {s t : Pipeline}

/-- What is seen from outside: what each thread has published, with its name, and the lines that
were formatted. -/
def fanIn (names : ℕ → ThreadName) (s : Pipeline) : FanIn ℕ (List UInt8 × List UInt8) where
  sent i := (s.publishedBy i).map fun e => ((names i).name, e)
  received := s.sink.formatted.filterMap fun l => l.src.map fun i => (i, l.name, l.entry)

/-- A step that publishes nothing and formats nothing. -/
lemma fanIn_congr (hfinished : ∀ i, (t.chans i).finished = (s.chans i).finished)
    (hformatted : t.sink.formatted = s.sink.formatted) : t.fanIn names = s.fanIn names := by
  have hsent : t.publishedBy = s.publishedBy :=
    funext fun i => by rw [publishedBy, hfinished, publishedBy]
  rw [fanIn, fanIn, hsent, hformatted]

/-- The end of a thread publishes nothing. -/
lemma exitStep_finished {i : ℕ} (ht : s.exitStep i = some t) :
    (∀ j, (t.chans j).finished = (s.chans j).finished) ∧ t.sink = s.sink := by
  have hchan (j : ℕ) (c : Channel) (hc : c.finished = (s.chans i).finished) :
      ((s.setChan i c).chans j).finished = (s.chans j).finished := by
    rw [setChan_chans]
    split_ifs with hj
    · rw [hj, hc]
    · rfl
  simp only [exitStep] at ht
  split at ht <;> cases ht <;> exact ⟨fun j => hchan j _ rfl, rfl⟩

/-- The lines received from the thread `i` are those formatted from its staging buffer. -/
lemma proj_received (h : s.Inv names) (i : ℕ) :
    (proj Prod.fst i (s.fanIn names).received).map Prod.snd =
      (s.formattedFrom i).map fun e => ((names i).name, e) := by
  have hlines : ∀ l ∈ s.sink.formatted, ∃ j, l.src = some j ∧ l.name = (names j).name :=
    fun l hl => (h.attributed hl).imp fun _ hj => ⟨hj.1, hj.2.1⟩
  rw [fanIn, formattedFrom]
  dsimp only
  generalize s.sink.formatted = ls at hlines
  induction ls with
  | nil => rfl
  | cons l ls ih =>
      obtain ⟨j, hj, hname⟩ := hlines l List.mem_cons_self
      have hrest := ih fun l hl => hlines l (List.mem_cons_of_mem _ hl)
      rw [List.filterMap_cons_some (b := (j, l.name, l.entry)) (by rw [hj]; rfl)]
      by_cases hji : j = i
      · subst hji
        rw [FanIn.proj_fst_cons_self, List.map_cons, hrest, List.filter_cons_of_pos (by simp [hj]),
          List.map_cons, List.map_cons, hname]
      · rw [proj_cons_of_ne hji, hrest, List.filter_cons_of_neg (by simp [hj, hji])]

/-- A step of a logging thread publishes an entry, or none. -/
lemma fanIn_log {i : ℕ} {a : ProducerAct} (ht : s.logStep i a = some t) :
    t.fanIn names = s.fanIn names ∨
      ∃ b, FanIn.machine.step (s.fanIn names) b = some (t.fanIn names) := by
  simp only [logStep, Option.ite_none_right_eq_some, Option.map_eq_some_iff] at ht
  obtain ⟨-, c, hc, rfl⟩ := ht
  obtain ⟨-, -, -, hfin | ⟨cur, m, -, hfin⟩⟩ := Channel.producerStep_frame hc
  · refine .inl (fanIn_congr (fun j => ?_) rfl)
    rw [setChan_chans]
    split_ifs with hj
    · rw [hj, hfin]
    · rfl
  · refine .inr ⟨.send i ((names i).name, slice (s.chans i).buf.storage cur m), ?_⟩
    refine congrArg some (FanIn.ext (funext fun j => ?_) rfl)
    dsimp only [fanIn]
    rw [Function.update_apply]
    split_ifs with hj
    · rw [hj, publishedBy, publishedBy, setChan_chans, if_pos rfl, hfin, List.map_append,
        List.map_append]
      rfl
    · rw [publishedBy, publishedBy, setChan_chans, if_neg hj]

/-- A step of the sink thread formats the next entry of a thread, or none. -/
lemma fanIn_sink (ht : t.Inv names) (hpublished : t.publishedBy = s.publishedBy)
    (hformatted : t.sink.formatted = s.sink.formatted ∨
      ∃ l, t.sink.formatted = s.sink.formatted ++ [l]) :
    t.fanIn names = s.fanIn names ∨
      ∃ b, FanIn.machine.step (s.fanIn names) b = some (t.fanIn names) := by
  have hsent : (t.fanIn names).sent = (s.fanIn names).sent := by
    rw [fanIn, fanIn, hpublished]
  rcases hformatted with hsame | ⟨l, hmore⟩
  · refine .inl (FanIn.ext hsent ?_)
    rw [fanIn, fanIn, hsame]
  · -- the new line is what comes next in the entries its thread has published
    obtain ⟨i, hi, -⟩ := ht.attributed (l := l) (by rw [hmore]; simp)
    have hreceived : (t.fanIn names).received =
        (s.fanIn names).received ++ [(i, l.name, l.entry)] := by
      simp [fanIn, hmore, hi]
    have hnext : (proj Prod.fst i (s.fanIn names).received).map Prod.snd ++ [(l.name, l.entry)] <+:
        (s.fanIn names).sent i := by
      calc (proj Prod.fst i (s.fanIn names).received).map Prod.snd ++ [(l.name, l.entry)]
          = (proj Prod.fst i (t.fanIn names).received).map Prod.snd := by
            rw [hreceived, proj_append, List.map_append, FanIn.proj_fst_cons_self]
            rfl
        _ = (t.formattedFrom i).map fun e => ((names i).name, e) := proj_received ht i
        _ <+: (t.publishedBy i).map fun e => ((names i).name, e) :=
            (ht.formattedFrom_prefix i).map _
        _ = (s.fanIn names).sent i := by rw [hpublished]; rfl
    exact .inr ⟨.receive i, (FanIn.step_receive hnext).trans
      (congrArg some (FanIn.ext hsent.symm hreceived.symm))⟩

/-- **The runtime logger refines the ideal of a logger with many writers.** In every interleaving
of any number of logging threads with the poll thread, the sink thread and the destructor, each
step publishes one entry of one thread, or formats, under its name, the next entry of one thread,
or changes nothing of what was published and formatted. -/
theorem refines_fanIn (names : ℕ → ThreadName) :
    (machine names).Refines FanIn.machine (fanIn names) where
  init := by simp [fanIn, machine, new, Sink.new, FanIn.machine, publishedBy, Channel.new]
  step s a t h hst := by
    have hinv := reachable_inv h
    have hinv' := reachable_inv (h.step hst)
    cases a with
    | log i a => exact fanIn_log hst
    | sink a =>
        simp only [machine, step, Option.map_eq_some_iff] at hst
        obtain ⟨k, hk, rfl⟩ := hst
        exact fanIn_sink hinv' rfl (Sink.threadStep_formatted hk)
    | poll =>
        obtain ⟨-, hsink, hchans, -⟩ := pollStep_frame (show s.pollStep names = some t from hst)
        refine .inl (fanIn_congr (fun i => ?_) ?_)
        · rcases hchans i with hc | ⟨a, hc⟩
          · rw [hc]
          · exact (Channel.consumerStep_frame hc).2.1
        · rcases hsink with hsame | ⟨a, hk⟩
          · rw [hsame]
          · obtain ⟨hpool, hstore⟩ := Sink.reachable_storeInv hinv.sink
            obtain ⟨-, -, -, hformatted, -⟩ := Sink.appenderStep_queuedBlocks hpool hstore hk
            exact hformatted
    | allocate i =>
        simp only [machine, step, Option.ite_none_right_eq_some, Option.some.injEq] at hst
        obtain ⟨-, rfl⟩ := hst
        exact .inl rfl
    | register i =>
        simp only [machine, step, Option.ite_none_right_eq_some, Option.some.injEq] at hst
        obtain ⟨-, rfl⟩ := hst
        exact .inl rfl
    | exit i =>
        obtain ⟨hfinished, hsink⟩ := exitStep_finished (show s.exitStep i = some t from hst)
        exact .inl (fanIn_congr hfinished (by rw [hsink]))
    | destroy =>
        simp only [machine, step, destroyStep] at hst
        split at hst <;> (try split_ifs at hst) <;> cases hst <;> exact .inl rfl

end Pipeline

end ConstexprFmtStr
