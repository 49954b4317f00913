import Mathlib.Tactic
import ConstexprFmtStr.Runtime.Shutdown
import ConstexprFmtStr.Runtime.SinkCycle

/-!
What is published gets formatted.

* `Pipeline.RunInv`: where the consumers stand, which staging buffers are registered, and that
  both background threads run as long as the destructor has not begun.
* `Pipeline.background`: the poll thread and the sink thread alone take steps. `background_frame`:
  they publish nothing and take nothing back.
* `Pipeline.visit_leadsTo`: a visit of `poll_` to a staging buffer comes to its end.
* `Pipeline.progress`: what a logging thread has published gets less in its staging buffer.
* `Pipeline.drains`: from every reachable state these two threads can format all that the logging
  threads have published. What a thread that has ended left behind is not part of it.
-/

namespace ConstexprFmtStr

open Slice Word

namespace Channel

attribute [local simp] consumerStep

variable {s t : Channel}

/-- Bytes that were consumed stay so. -/
lemma consumed_prefix {a : ConsumerAct} (ht : s.consumerStep a = some t) :
    s.consumed <+: t.consumed := by
  cases hpc : s.cons <;> cases a <;> simp [hpc] at ht
  case idle.peek => rw [← ht]
  case idle.consume => rw [← ht.2]
  case storeConsumer.advance =>
    rw [← ht]
    exact List.prefix_append _ _
  all_goals rw [← ht]

/-- The consumer moves neither `_producerPos` nor the producer. -/
lemma consumerStep_producer {a : ConsumerAct} (ht : s.consumerStep a = some t) :
    t.prod = s.prod ∧ t.buf.producerPos = s.buf.producerPos := by
  refine ⟨(consumerStep_frame ht).1, ?_⟩
  cases hpc : s.cons <;> cases a <;> simp [hpc] at ht
  case idle.consume => rw [← ht.2]
  all_goals rw [← ht]

/-- What is peeked fits the storage. -/
lemma Inv.avail_le (h : s.Inv) {pos avail : ℕ} (hpc : s.cons = .idle pos avail) :
    avail ≤ stagingBufferSize := by
  have hcons := h.consumer
  rw [hpc] at hcons
  have hlt := h.positions.producer_lt
  have hwrapped := h.positions.wrapped
  have hle : avail ≤ stretch s.buf.producerPos s.buf.endOfRecordedSpace s.buf.consumerPos :=
    hcons.2.1
  rw [stretch] at hle
  split_ifs at hle <;> omega

end Channel

namespace Pipeline

variable {names : ℕ → ThreadName} {s t u : Pipeline}

/-! ### Where the background threads stand -/

/-- The consumer is between two calls. -/
def Outside (c : ConsumerPc) : Prop := ∃ pos avail, c = .idle pos avail

/-- `poll_` is in a call of `peek` or `consume` of the staging buffer `sb`, and its consumer at
`c`. -/
def InCall : PollPc → ℕ → ConsumerPc → Prop
  | .peeking _ sb', sb, c => sb = sb' ∧ Channel.inPeek c = true
  | .consuming _ sb', sb, _ => sb = sb'
  | _, _, _ => False

/-- `poll_` has the staging buffer `sb` in hand, at the index `i` of `threadBuffers`. -/
def Visits (pc : PollPc) (i sb : ℕ) : Prop :=
  pc = .peeking i sb ∨ pc = .checkDelete i sb ∨ pc = .delete i sb

/-- Where the consumers stand, what is registered, and what is still running. -/
structure RunInv (s : Pipeline) : Prop where
  consumer : ∀ sb, Outside (s.chans sb).cons ∨ InCall s.poll sb (s.chans sb).cons
  flag : ∀ i, (s.chans i).buf.shouldDeallocate = true → s.threads i = .exited
  registered : ∀ i, s.threads i = .logging → i ∈ s.threadBuffers
  visits : ∀ i sb, Visits s.poll i sb → s.threadBuffers[i]? = some sb
  deleting : ∀ i sb, s.poll = .delete i sb → (s.chans sb).buf.shouldDeallocate = true
  alive : s.destructor = .alive → s.bgThreadShouldExit = false ∧ s.poll ≠ .exited ∧
    s.sink.running = true ∧ s.sink.pc ≠ .exited ∧ s.sink.pc ≠ .notRunning

/-- Where `poll_` is in no call, no consumer is. -/
lemma RunInv.outside (h : s.RunInv) {pc : PollPc} (hpc : s.poll = pc)
    (hcall : ∀ sb c, ¬InCall pc sb c) (sb : ℕ) : Outside (s.chans sb).cons := by
  have hcons := h.consumer sb
  rw [hpc] at hcons
  exact hcons.resolve_right (hcall sb _)

/-- Where `poll_` is in a call of `peek`, so is the consumer, or the call has just returned. -/
lemma RunInv.inPeek (h : s.RunInv) {i sb : ℕ} (hpc : s.poll = .peeking i sb) :
    Channel.inPeek (s.chans sb).cons = true := by
  rcases h.consumer sb with ⟨pos, avail, hcons⟩ | hcall
  · rw [hcons]
    rfl
  · rw [hpc] at hcall
    exact hcall.2

/-- A step that leaves `poll_` and the sink where they are. -/
lemma RunInv.of_frame (h : s.RunInv) (hcons : ∀ i, (t.chans i).cons = (s.chans i).cons)
    (hflag : ∀ i, (t.chans i).buf.shouldDeallocate = true →
      (s.chans i).buf.shouldDeallocate = true ∧ t.threads i = s.threads i ∨ t.threads i = .exited)
    (hdelete : ∀ i, (s.chans i).buf.shouldDeallocate = true →
      (t.chans i).buf.shouldDeallocate = true)
    (hregistered : ∀ i, t.threads i = .logging → i ∈ t.threadBuffers) (hpoll : t.poll = s.poll)
    (hvisits : ∀ i sb, Visits s.poll i sb → t.threadBuffers[i]? = s.threadBuffers[i]?)
    (halive : t.destructor = .alive → s.destructor = .alive ∧
      t.bgThreadShouldExit = s.bgThreadShouldExit ∧ t.sink.running = s.sink.running ∧
        t.sink.pc = s.sink.pc) : t.RunInv where
  consumer sb := by
    rw [hcons, hpoll]
    exact h.consumer sb
  flag i hi := by
    rcases hflag i hi with ⟨hi, heq⟩ | heq
    · rw [heq, h.flag i hi]
    · exact heq
  registered := hregistered
  visits i sb hv := by
    rw [hpoll] at hv
    rw [hvisits i sb hv, h.visits i sb hv]
  deleting i sb hpc := by
    rw [hpoll] at hpc
    exact hdelete sb (h.deleting i sb hpc)
  alive ht := by
    obtain ⟨hs, hexit, hrunning, hpc⟩ := halive ht
    rw [hexit, hrunning, hpc, hpoll]
    exact h.alive hs

/-- What is in the hands of `poll_` is registered. -/
lemma not_visits_of_free (hfree : holdsBufferMutex s.poll = false) (i sb : ℕ) :
    ¬Visits s.poll i sb := by
  rintro (hpc | hpc | hpc) <;> rw [hpc] at hfree <;> cases hfree

lemma runInv_log (h : s.RunInv) {i : ℕ} {a : ProducerAct} (ht : s.logStep i a = some t) :
    t.RunInv := by
  simp only [logStep, Option.ite_none_right_eq_some, Option.map_eq_some_iff] at ht
  obtain ⟨-, c, hc, rfl⟩ := ht
  obtain ⟨hcons, -, hflag, -⟩ := Channel.producerStep_frame hc
  have hchan (j : ℕ) : ((s.setChan i c).chans j).cons = (s.chans j).cons ∧
      ((s.setChan i c).chans j).buf.shouldDeallocate = (s.chans j).buf.shouldDeallocate := by
    rw [setChan_chans]
    split_ifs with hj
    · rw [hj, hcons, hflag]
      exact ⟨rfl, rfl⟩
    · exact ⟨rfl, rfl⟩
  refine h.of_frame (fun j => (hchan j).1) (fun j hj => .inl ⟨?_, rfl⟩) (fun j hj => ?_)
    h.registered rfl (fun _ _ _ => rfl) fun hs => ⟨hs, rfl, rfl, rfl⟩
  · rw [← (hchan j).2]
    exact hj
  · rw [(hchan j).2]
    exact hj

lemma runInv_exit (h : s.RunInv) {i : ℕ} (ht : s.exitStep i = some t) : t.RunInv := by
  obtain ⟨-, hthreads, hpoll, hflag, hother, hsame⟩ := exitStep_frame ht
  obtain ⟨hbuffers, hdestructor, hexit, hsink⟩ : t.threadBuffers = s.threadBuffers ∧
      t.destructor = s.destructor ∧ t.bgThreadShouldExit = s.bgThreadShouldExit ∧
      t.sink = s.sink := by
    simp only [exitStep] at ht
    split at ht <;> cases ht <;> exact ⟨rfl, rfl, rfl, rfl⟩
  refine h.of_frame (fun j => (hsame j).2.2.1) (fun j hj => ?_) (fun j hj => ?_) (fun j hj => ?_)
    hpoll (fun _ _ _ => by rw [hbuffers]) fun hs => ?_
  · by_cases hji : j = i
    · rw [hji, hthreads, Function.update_self]
      exact .inr rfl
    · rw [hother j hji] at hj
      rw [hthreads, Function.update_of_ne hji]
      exact .inl ⟨hj, rfl⟩
  · by_cases hji : j = i
    · rw [hji]
      exact hflag
    · rwa [hother j hji]
  · have hji : j ≠ i := by
      rintro rfl
      rw [hthreads, Function.update_self] at hj
      cases hj
    rw [hthreads, Function.update_of_ne hji] at hj
    rw [hbuffers]
    exact h.registered j hj
  · rw [hdestructor] at hs
    rw [hexit, hsink]
    exact ⟨hs, rfl, rfl, rfl⟩

/-- Where `poll_` finds a staging buffer, and where it looks next. -/
lemma pollStep_visits (ht : s.pollStep names = some t) {i sb : ℕ} (hpc : t.poll = .peeking i sb) :
    t.threadBuffers = s.threadBuffers ∧
      (s.poll = .peeking i sb ∨ s.threadBuffers[i]? = some sb) := by
  cases hs : s.poll with
  | scan j =>
      simp only [pollStep, hs] at ht
      split at ht
      case h_1 sb' hsb =>
        simp only [Option.map_eq_some_iff] at ht
        obtain ⟨c, -, rfl⟩ := ht
        simp only [PollPc.peeking.injEq] at hpc
        obtain ⟨rfl, rfl⟩ := hpc
        exact ⟨rfl, .inr hsb⟩
      case h_2 =>
        cases ht
        cases hpc
  | peeking j sb' =>
      cases pollStep_cases ht with
      | peeking hpc' =>
          refine ⟨rfl, .inl ?_⟩
          rw [← hs]
          exact hpc
      | found | foundNothing => cases hpc
      | _ h => rw [h] at hs; cases hs
  | append j sb' len =>
      cases pollStep_cases ht with
      | retry => rw [show s.poll = _ from hpc] at hs; cases hs
      | append => cases hpc
      | _ h => rw [h] at hs; cases hs
  | _ =>
      cases pollStep_cases ht with
      | delete h hto => rcases hto with rfl | rfl <;> cases hpc
      | peek h | peeking h => rw [h] at hs; cases hs
      | retry | count => rw [show s.poll = _ from hpc] at hs; cases hs
      | _ => cases hpc

/-- No consumer is left in a call. -/
lemma consumer_poll (hinv : s.Inv names) (h : s.RunInv) (ht : s.pollStep names = some t) (sb : ℕ) :
    Outside (t.chans sb).cons ∨ InCall t.poll sb (t.chans sb).cons := by
  have hold := h.consumer sb
  -- the staging buffer in hand, and the others
  have hset {sb' : ℕ} {c : Channel} {pc : PollPc} (hself : Outside c.cons ∨ InCall pc sb' c.cons)
      (hother : sb ≠ sb' → Outside (s.chans sb).cons) :
      Outside ((s.setChan sb' c).chans sb).cons ∨
        InCall pc sb ((s.setChan sb' c).chans sb).cons := by
    rw [setChan_chans]
    split_ifs with hsb
    · rw [hsb]
      exact hself
    · exact .inl (hother hsb)
  cases pollStep_cases ht with
  | @peek i sb' c hpc hc =>
      exact hset (.inr ⟨rfl, by rw [Channel.peek_call hc]; rfl⟩) fun _ =>
        h.outside hpc (fun _ _ => id) sb
  | @peeking i sb' c hpc hc =>
      have hnext := (Channel.peek_step (hinv.chan sb') hc (h.inPeek hpc)).2.1
      rw [hpc] at hold
      have hcall : InCall (s.setChan sb' c).poll sb' c.cons := by
        show InCall s.poll sb' c.cons
        rw [hpc]
        exact ⟨rfl, hnext⟩
      exact hset (.inr hcall) fun hne => hold.resolve_right fun hcall => hne hcall.1
  | @found i sb' pos avail hpc hcons | @foundNothing i sb' pos hpc hcons =>
      rw [hpc] at hold
      refine .inl (hold.elim id fun hcall => ?_)
      obtain ⟨rfl, -⟩ := hcall
      exact ⟨_, _, hcons⟩
  | @copy i sb' pos avail remaining blk k c hpc happ hcons hk hc =>
      exact hset (.inr rfl) fun _ => h.outside hpc (fun _ _ => id) sb
  | @consume i sb' c hpc hc =>
      have hpoll := hinv.poll
      rw [hpc] at hpoll
      obtain ⟨bytes, remaining, pos, avail, nbytes, cur, -, hcons, -⟩ := hpoll
      have hidle : Outside c.cons := by
        simp only [Channel.consumerStep, hcons, Option.some.injEq] at hc
        rw [← hc]
        exact ⟨_, _, rfl⟩
      rw [hpc] at hold
      exact hset (.inl hidle) fun hne => hold.resolve_right hne
  | delete hpc | retry hpc | count hpc => exact .inl (h.outside hpc (fun _ _ => id) sb)
  | _ hpc => exact .inl (h.outside hpc (fun _ _ => id) sb)

/-- `poll_` takes out only what it deletes. -/
lemma threadBuffers_poll (ht : s.pollStep names = some t) :
    t.threadBuffers = s.threadBuffers ∨
      ∃ i sb, s.poll = .delete i sb ∧ t.threadBuffers = s.threadBuffers.eraseIdx i ∧
        (t.poll = .loopHead ∨ t.poll = .scan i) := by
  cases pollStep_cases ht with
  | delete hpc hto => exact .inr ⟨_, _, hpc, rfl, hto⟩
  | _ => exact .inl rfl

lemma runInv_poll (hinv : s.Inv names) (h : s.RunInv) (ht : s.pollStep names = some t) :
    t.RunInv := by
  obtain ⟨⟨hthreads, hdestructor, hexit, -⟩, hsink, hchans, -, hend⟩ := pollStep_frame ht
  obtain ⟨-, hcheck, hdelete⟩ := pollStep_toDelete ht
  have hflag (i : ℕ) :
      (t.chans i).buf.shouldDeallocate = (s.chans i).buf.shouldDeallocate := by
    rcases hchans i with hc | ⟨a, hc⟩
    · rw [hc]
    · exact (Channel.consumerStep_frame hc).2.2.2.1
  have hkept (hnot : ∀ i sb, s.poll ≠ .delete i sb) : t.threadBuffers = s.threadBuffers :=
    (threadBuffers_poll ht).resolve_right fun ⟨i, sb, hpc, _⟩ => hnot i sb hpc
  refine ⟨consumer_poll hinv h ht, fun i hi => ?_, fun i hi => ?_, fun i sb hv => ?_,
    fun i sb hpc => ?_, fun hs => ?_⟩
  · rw [hthreads]
    rw [hflag] at hi
    exact h.flag i hi
  · rw [hthreads] at hi
    rcases threadBuffers_poll ht with hsame | ⟨k, sb, hpc, herase, -⟩
    · rw [hsame]
      exact h.registered i hi
    · -- what is deleted belongs to a thread that has ended
      have hsb := h.visits k sb (.inr (.inr hpc))
      have hexited := h.flag sb (h.deleting k sb hpc)
      obtain ⟨j, hj, hji⟩ := List.getElem_of_mem (h.registered i hi)
      rw [herase, List.mem_eraseIdx_iff_getElem?]
      refine ⟨j, fun hjk => ?_, ?_⟩
      · subst hjk
        rw [List.getElem?_eq_getElem hj, hji, Option.some.injEq] at hsb
        rw [hsb, hexited] at hi
        cases hi
      · rw [List.getElem?_eq_getElem hj, hji]
  · rcases hv with hpc | hpc | hpc
    · obtain ⟨hsame, hpc' | hsb⟩ := pollStep_visits ht hpc
      · rw [hsame]
        exact h.visits i sb (.inl hpc')
      · rw [hsame, hsb]
    · obtain ⟨hpc', -⟩ := hcheck i sb hpc
      rw [hkept fun j sb' hd => by rw [hpc'] at hd; cases hd]
      exact h.visits i sb (.inl hpc')
    · obtain ⟨hpc', -⟩ := hdelete i sb hpc
      rw [hkept fun j sb' hd => by rw [hpc'] at hd; cases hd]
      exact h.visits i sb (.inr (.inl hpc'))
  · rw [hflag]
    exact (hdelete i sb hpc).2.2
  · rw [hdestructor] at hs
    obtain ⟨hnot, -, hrunning, hexited, hstart⟩ := h.alive hs
    have hframe : t.sink.pc = s.sink.pc ∧ t.sink.running = s.sink.running := by
      rcases hsink with hsink | ⟨a, hk⟩
      · rw [hsink]
        exact ⟨rfl, rfl⟩
      · exact Sink.appenderStep_frame hk
    rw [hexit, hframe.1, hframe.2]
    refine ⟨hnot, fun hpc => ?_, hrunning, hexited, hstart⟩
    rw [hnot] at hend
    exact absurd (hend hpc).2 (by simp)

lemma step_runInv (hinv : s.Inv names) (h : s.RunInv) {a : PipelineAct}
    (ht : s.step names a = some t) : t.RunInv := by
  cases a with
  | allocate i =>
      simp only [step, Option.ite_none_right_eq_some, Option.some.injEq] at ht
      obtain ⟨hfresh, rfl⟩ := ht
      have hother {j : ℕ} {p : ThreadPhase} (hj : Function.update s.threads i .allocated j = p)
          (hp : p ≠ .allocated) : s.threads j = p := by
        by_cases hji : j = i
        · rw [hji, Function.update_self] at hj
          exact absurd hj.symm hp
        · rwa [Function.update_of_ne hji] at hj
      refine h.of_frame (fun _ => rfl) (fun j hj => .inl ⟨hj, ?_⟩) (fun _ hj => hj)
        (fun j hj => h.registered j (hother hj (by simp))) rfl (fun _ _ _ => rfl)
        fun hs => ⟨hs, rfl, rfl, rfl⟩
      dsimp only
      have hji : j ≠ i := by
        rintro rfl
        rw [h.flag j hj] at hfresh
        cases hfresh
      rw [Function.update_of_ne hji]
  | register i =>
      simp only [step, Option.ite_none_right_eq_some, Option.some.injEq] at ht
      obtain ⟨⟨hallocated, hfree⟩, rfl⟩ := ht
      refine h.of_frame (fun _ => rfl) (fun j hj => .inl ⟨hj, ?_⟩) (fun _ hj => hj)
        (fun j hj => ?_) rfl (fun k sb hv => absurd hv (not_visits_of_free hfree k sb))
        fun hs => ⟨hs, rfl, rfl, rfl⟩
      · dsimp only
        have hji : j ≠ i := by
          rintro rfl
          rw [h.flag j hj] at hallocated
          cases hallocated
        rw [Function.update_of_ne hji]
      · dsimp only at hj ⊢
        rw [List.mem_append, List.mem_singleton]
        by_cases hji : j = i
        · exact .inr hji
        · rw [Function.update_of_ne hji] at hj
          exact .inl (h.registered j hj)
  | log i a => exact runInv_log h ht
  | exit i => exact runInv_exit h ht
  | poll => exact runInv_poll hinv h ht
  | sink a =>
      simp only [step, Option.map_eq_some_iff] at ht
      obtain ⟨k, hk, rfl⟩ := ht
      refine ⟨h.consumer, h.flag, h.registered, h.visits, h.deleting, fun hs => ?_⟩
      obtain ⟨hnot, hpoll, hrunning, -, -⟩ := h.alive hs
      obtain ⟨-, hstart, hexited⟩ := Sink.threadStep_pc hk
      have hkept : k.running = true := (Sink.threadStep_frame hk).2.2.2.2.1.trans hrunning
      refine ⟨hnot, hpoll, hkept, fun hpc => ?_, fun hpc => ?_⟩
      · rw [hrunning] at hexited
        exact absurd (hexited hpc).2.2 (by simp)
      · rw [hrunning] at hstart
        exact absurd (hstart hpc).2 (by simp)
  | destroy =>
      have hframe : t.chans = s.chans ∧ t.threads = s.threads ∧
          t.threadBuffers = s.threadBuffers ∧ t.poll = s.poll ∧ t.destructor ≠ .alive := by
        simp only [step, destroyStep] at ht
        split at ht
        · cases ht
          exact ⟨rfl, rfl, rfl, rfl, by simp⟩
        · split_ifs at ht
          cases ht
          exact ⟨rfl, rfl, rfl, rfl, by simp⟩
        · cases ht
          split_ifs <;> exact ⟨rfl, rfl, rfl, rfl, by simp⟩
        · split_ifs at ht
          cases ht
          exact ⟨rfl, rfl, rfl, rfl, by simp⟩
        · cases ht
      obtain ⟨hchans, hthreads, hbuffers, hpoll, hdead⟩ := hframe
      refine h.of_frame (fun i => by rw [hchans]) (fun i hi => .inl ⟨?_, by rw [hthreads]⟩)
        (fun i hi => by rwa [hchans]) (fun i hi => ?_) hpoll (fun _ _ _ => by rw [hbuffers])
        fun hs => absurd hs hdead
      · rwa [hchans] at hi
      · rw [hthreads] at hi
        rw [hbuffers]
        exact h.registered i hi

lemma runInv_new : new.RunInv where
  consumer _ := .inl ⟨0, 0, rfl⟩
  flag := by simp [new, Channel.new, StagingBuffer.new]
  registered := by simp [new]
  visits := by simp [new, Visits]
  deleting := by simp [new]
  alive := by simp [new, Sink.new]

lemma reachable_runInv (h : (machine names).Reachable s) : s.Inv names ∧ s.RunInv :=
  Machine.Reachable.invariant (I := fun s => s.Inv names ∧ s.RunInv) h ⟨inv_new names, runInv_new⟩
    fun hinv hst => ⟨step_inv hinv.1 hst, step_runInv hinv.1 hinv.2 hst⟩

/-! ### The background threads -/

/-- The poll thread or the sink thread takes a step. -/
def background : Pipeline → PipelineAct → Prop := fun _ a => a = .poll ∨ ∃ b, a = .sink b

/-- The state is reachable, and the sink thread goes round. -/
structure Running (names : ℕ → ThreadName) (s : Pipeline) : Prop where
  reachable : (machine names).Reachable s
  running_eq : s.sink.running = true
  ne_exited : s.sink.pc ≠ .exited
  ne_notRunning : s.sink.pc ≠ .notRunning

/-- The state is reachable, and the destructor has not begun. -/
structure Live (names : ℕ → ThreadName) (s : Pipeline) : Prop where
  reachable : (machine names).Reachable s
  alive : s.destructor = .alive

lemma Live.poll_ne (h : s.Live names) : s.poll ≠ .exited :=
  ((reachable_runInv h.reachable).2.alive h.alive).2.1

lemma Live.running (h : s.Live names) : s.Running names := by
  obtain ⟨-, -, hrunning, hexited, hnot⟩ := (reachable_runInv h.reachable).2.alive h.alive
  exact ⟨h.reachable, hrunning, hexited, hnot⟩

/-- What the background threads leave alone, and what they only add to. -/
structure Onward (s t : Pipeline) : Prop where
  threads_eq : t.threads = s.threads
  destructor_eq : t.destructor = s.destructor
  finished_eq : ∀ i, (t.chans i).finished = (s.chans i).finished
  producer_eq : ∀ i, (t.chans i).prod = (s.chans i).prod ∧
    (t.chans i).buf.producerPos = (s.chans i).buf.producerPos
  consumed_prefix : ∀ i, (s.chans i).consumed <+: (t.chans i).consumed

lemma Onward.refl (s : Pipeline) : Onward s s :=
  ⟨rfl, rfl, fun _ => rfl, fun _ => ⟨rfl, rfl⟩, fun _ => List.prefix_rfl⟩

lemma Onward.trans (h : Onward s t) (h' : Onward t u) : Onward s u where
  threads_eq := h'.threads_eq.trans h.threads_eq
  destructor_eq := h'.destructor_eq.trans h.destructor_eq
  finished_eq i := (h'.finished_eq i).trans (h.finished_eq i)
  producer_eq i := ⟨(h'.producer_eq i).1.trans (h.producer_eq i).1,
    (h'.producer_eq i).2.trans (h.producer_eq i).2⟩
  consumed_prefix i := (h.consumed_prefix i).trans (h'.consumed_prefix i)

lemma onward_step {a : PipelineAct} (hG : background s a) (ht : s.step names a = some t) :
    Onward s t := by
  rcases hG with rfl | ⟨b, rfl⟩
  · obtain ⟨⟨hthreads, hdestructor, -⟩, -, hchans, -⟩ := pollStep_frame ht
    refine ⟨hthreads, hdestructor, fun i => ?_, fun i => ?_, fun i => ?_⟩ <;>
      rcases hchans i with hc | ⟨a, hc⟩
    · rw [hc]
    · exact (Channel.consumerStep_frame hc).2.1
    · rw [hc]
      exact ⟨rfl, rfl⟩
    · exact Channel.consumerStep_producer hc
    · rw [hc]
    · exact Channel.consumed_prefix hc
  · simp only [step, Option.map_eq_some_iff] at ht
    obtain ⟨k, -, rfl⟩ := ht
    exact ⟨rfl, rfl, fun _ => rfl, fun _ => ⟨rfl, rfl⟩, fun _ => List.prefix_rfl⟩

/-- They do not stop the sink thread. -/
lemma Running.step (h : s.Running names) {a : PipelineAct} (hG : background s a)
    (ht : s.step names a = some t) : t.Running names := by
  have hreachable : (machine names).Reachable t := h.reachable.step ht
  rcases hG with rfl | ⟨b, rfl⟩
  · obtain ⟨-, hsink, -⟩ := pollStep_frame ht
    have hframe : t.sink.pc = s.sink.pc ∧ t.sink.running = s.sink.running := by
      rcases hsink with hsink | ⟨a, hk⟩
      · rw [hsink]
        exact ⟨rfl, rfl⟩
      · exact Sink.appenderStep_frame hk
    exact ⟨hreachable, hframe.2.trans h.running_eq, by rw [hframe.1]; exact h.ne_exited,
      by rw [hframe.1]; exact h.ne_notRunning⟩
  · simp only [Pipeline.step, Option.map_eq_some_iff] at ht
    obtain ⟨k, hk, rfl⟩ := ht
    obtain ⟨-, hnot, hexited⟩ := Sink.threadStep_pc hk
    refine ⟨hreachable, (Sink.threadStep_frame hk).2.2.2.2.1.trans h.running_eq, fun hpc => ?_,
      fun hpc => ?_⟩
    · rw [h.running_eq] at hexited
      exact absurd (hexited hpc).2.2 (by simp)
    · rw [h.running_eq] at hnot
      exact absurd (hnot hpc).2 (by simp)

lemma running_frame (h : s.Running names) (hst : (machine names).Reaches background s t) :
    t.Running names ∧ Onward s t := by
  refine hst.invariant (I := fun t => t.Running names ∧ Onward s t) ⟨h, Onward.refl s⟩
    fun {t u a} ht hG hu => ?_
  exact ⟨ht.1.step hG hu, ht.2.trans (onward_step hG hu)⟩

/-- **The background threads** publish nothing, take nothing back, and let the logger live. -/
lemma background_frame (h : s.Live names) (hst : (machine names).Reaches background s t) :
    t.Live names ∧ Onward s t := by
  refine hst.invariant (I := fun t => t.Live names ∧ Onward s t) ⟨h, Onward.refl s⟩
    fun {t u a} ht hG hu => ?_
  have hstep := onward_step hG hu
  exact ⟨⟨ht.1.reachable.step hu, hstep.destructor_eq.trans ht.1.alive⟩, ht.2.trans hstep⟩

/-- What the sink thread does alone it does in the background. -/
lemma background_of_sink {k : Sink} (h : Sink.machine.Reaches Sink.threadAlone s.sink k) :
    (machine names).Reaches background s { s with sink := k } := by
  induction h with
  | refl => exact .refl
  | @tail k k' a _ hG hk ih =>
      obtain ⟨b, rfl⟩ := hG
      refine ih.tail (.inr ⟨b, rfl⟩) ?_
      have hstep : k.threadStep b = some k' := hk
      simp [machine, step, hstep]

/-- One step of `poll_`. -/
lemma background_of_poll (ht : s.pollStep names = some t) :
    (machine names).Reaches background s t :=
  .single (.inl rfl) (show (machine names).step s .poll = some t from ht)

/-- While `mutex_` is free the sink thread turns. -/
lemma Running.turning (h : s.Running names) (happ : s.sink.app = .outside) : s.sink.Turning := by
  have hinv := reachable_inv h.reachable
  exact ⟨⟨⟨hinv.sink, fun blk hblk => (hinv.named blk hblk).2⟩, happ⟩, h.running_eq, h.ne_exited,
    h.ne_notRunning⟩

/-! ### A visit -/

/-- The bytes of the block in hand that are still to be copied. -/
def remaining (app : AppenderPc) : ℕ :=
  match app with
  | .counting _ _ len => len
  | .copying _ n => n
  | _ => 0

/-- **`append` comes to its copy loop**, if need be after the sink thread has made room. -/
lemma append_leadsTo {i sb len : ℕ} (h : s.Running names) (hpc : s.poll = .append i sb len) :
    ∃ t, (machine names).Reaches background s t ∧ t.poll = .copying i sb ∧
      t.threadBuffers = s.threadBuffers ∧ remaining t.sink.app = len := by
  have hinv := reachable_inv h.reachable
  have hpoll := hinv.poll
  rw [hpc] at hpoll
  obtain ⟨happ, pos, hcons⟩ := hpoll
  obtain ⟨k, hk, hroom⟩ := (h.turning happ).makes_room
  have hturning := (h.turning happ).of_reaches hk
  have hfirst : (machine names).Reaches background s { s with sink := k } := background_of_sink hk
  -- the call
  have hcall : k.appenderStep (.append sb (names sb).name len) =
      some (k.append sb (names sb).name len) := by
    simp [Sink.appenderStep, hturning.app_eq, (names sb).length_lt, (names sb).nul_notMem,
      (hinv.chan sb).avail_le hcons]
  obtain ⟨-, hcase⟩ := Sink.append_call (Sink.reachable_poolInv hturning.formats.reachable)
    hturning.app_eq hcall
  have hin := hroom sb (names sb).name len
  refine ⟨{ s with sink := k.append sb (names sb).name len, poll := .copying i sb },
    hfirst.trans (background_of_poll ?_), rfl, rfl, ?_⟩
  · simp only [pollStep, hpc, hcall, Option.map_some]
  · rcases hcase with hcase | hcase | hcase
    · exact absurd hcase hin
    · dsimp only
      rw [hcase]
      rfl
    · dsimp only
      rw [hcase]
      rfl

/-- The supplementary buffer is still to be counted. -/
def counting (app : AppenderPc) : ℕ :=
  match app with
  | .counting _ _ _ => 1
  | _ => 0

/-- The end of a `consume` in the copy loop. -/
lemma consuming_step {i sb : ℕ} (h : s.Running names) (hpc : s.poll = .consuming i sb) :
    ∃ t, (machine names).Reaches background s t ∧ t.poll = .copying i sb ∧
      t.threadBuffers = s.threadBuffers ∧ t.sink = s.sink ∧
      ∃ pos avail nbytes cur, (s.chans sb).cons = .storeConsumer pos avail nbytes cur ∧
        (t.chans sb).consumed.length = (s.chans sb).consumed.length + nbytes := by
  have hpoll := (reachable_inv h.reachable).poll
  rw [hpc] at hpoll
  obtain ⟨bytes, left, pos, avail, nbytes, cur, -, hcons, -⟩ := hpoll
  obtain ⟨c, hc, hconsumed⟩ : ∃ c, (s.chans sb).consumerStep .advance = some c ∧
      c.consumed.length = (s.chans sb).consumed.length + nbytes := by
    simp [Channel.consumerStep, hcons]
  refine ⟨{ s.setChan sb c with poll := .copying i sb }, background_of_poll ?_, rfl, rfl, rfl,
    pos, avail, nbytes, cur, hcons, ?_⟩
  · simp only [pollStep, hpc, hc, Option.map_some]
  · dsimp only
    rw [setChan_chans, if_pos rfl, hconsumed]

/-- **A round of the copy loop**: the supplementary buffer is counted, a chunk is consumed, or the
block is done. -/
lemma copying_step {i sb : ℕ} (h : s.Running names) (hpc : s.poll = .copying i sb) :
    ∃ t, (machine names).Reaches background s t ∧ t.threadBuffers = s.threadBuffers ∧
      (t.poll = .relock i ∧ remaining s.sink.app = 0 ∨
        t.poll = .copying i sb ∧ counting t.sink.app < counting s.sink.app ∧
          remaining t.sink.app = remaining s.sink.app ∨
        t.poll = .copying i sb ∧ remaining t.sink.app < remaining s.sink.app ∧
          counting t.sink.app = 0 ∧
          (s.chans sb).consumed.length < (t.chans sb).consumed.length) := by
  have hinv := reachable_inv h.reachable
  have hpool := Sink.reachable_poolInv hinv.sink
  obtain ⟨cur, hcur⟩ := hpool.current
  have hpoll := hinv.poll
  rw [hpc] at hpoll
  rcases hpoll with ⟨len, pos, happ, -⟩ | ⟨bytes, left, pos, happ, hcons⟩
  · -- the increment of `newBufferCount_`
    obtain ⟨k, hk⟩ : ∃ k, s.sink.appenderStep .advance = some k := by
      simp [Sink.appenderStep, happ, hcur]
    obtain ⟨-, hcopying⟩ := Sink.append_counting hpool happ hk
    refine ⟨{ s with sink := k }, background_of_poll ?_, rfl, .inr (.inl ⟨hpc, ?_, ?_⟩)⟩
    · simp only [pollStep, hpc, copyStep, happ, hk, Option.map_some]
    · rw [hcopying, happ]
      exact Nat.zero_lt_one
    · rw [hcopying, happ]
      rfl
  · obtain rfl | hpos := Nat.eq_zero_or_pos left
    · -- the block is done
      obtain ⟨k, hk⟩ : ∃ k, s.sink.appenderStep .advance = some k := by
        simp [Sink.appenderStep, happ]
      refine ⟨{ s with sink := k, poll := .relock i }, background_of_poll ?_, rfl,
        .inl ⟨rfl, by rw [happ]; rfl⟩⟩
      simp only [pollStep, hpc, copyStep, happ, hk, Option.map_some]
    · obtain ⟨k, hk⟩ : ∃ k, s.sink.appenderStep (.chunk (slice (s.chans sb).buf.storage pos
          (min releaseThreshold left))) = some k := by
        simp only [Sink.appenderStep, happ, length_slice, hpos, and_self, if_true, hcur]
        split_ifs <;> exact ⟨_, rfl⟩
      have hcopied := (Sink.append_chunk hpool happ hk).2
      rw [length_slice] at hcopied
      obtain ⟨c, hc⟩ : ∃ c, (s.chans sb).consumerStep (.consume (min releaseThreshold left)) =
          some c := by
        simp [Channel.consumerStep, hcons]
      have hst : s.pollStep names =
          some { s.setChan sb c with sink := k, poll := .consuming i sb } := by
        obtain ⟨left, rfl⟩ := Nat.exists_eq_succ_of_ne_zero hpos.ne'
        simp only [pollStep, hpc, copyStep, happ, hcons, hk, hc, Option.bind_some, Option.map_some]
      have hfirst := background_of_poll hst
      obtain ⟨t, htu, ht, hbuffers, hsink, pos', avail', nbytes, cur', hcons', hlen⟩ :=
        consuming_step (running_frame h hfirst).1
          (show _ = PollPc.consuming i sb from rfl)
      dsimp only at hcons' hlen hsink hbuffers
      rw [setChan_chans, if_pos rfl] at hcons' hlen
      obtain ⟨-, -, cur'', hstore⟩ := Channel.consume_taken (hinv.chan sb) hcons hc
      have hsame : c.consumed = (s.chans sb).consumed := by
        simp only [Channel.consumerStep, hcons, Option.ite_none_right_eq_some,
          Option.some.injEq] at hc
        rw [← hc.2]
      rw [hstore] at hcons'
      simp only [ConsumerPc.storeConsumer.injEq] at hcons'
      obtain ⟨-, -, rfl, -⟩ := hcons'
      have hthreshold : 0 < releaseThreshold := by decide
      refine ⟨t, hfirst.trans htu, hbuffers, .inr (.inr ⟨ht, ?_, ?_, ?_⟩)⟩
      · rw [hsink, hcopied, happ]
        show left - min releaseThreshold left < left
        omega
      · rw [hsink, hcopied]
        rfl
      · rw [hlen, hsame]
        omega

/-- **The copy loop ends.** -/
lemma copying_leadsTo (names : ℕ → ThreadName) (i sb : ℕ) (L : List ℕ) :
    (machine names).LeadsTo background
      (fun s => s.Running names ∧ s.poll = .copying i sb ∧ s.threadBuffers = L)
      fun s => s.poll = .relock i ∧ s.threadBuffers = L := by
  refine .of_measure (fun s => 2 * remaining s.sink.app + counting s.sink.app) ?_
  rintro s ⟨hlive, hpc, hL⟩
  obtain ⟨t, hst, hbuffers, hcase⟩ := copying_step hlive hpc
  have hlive' := (running_frame hlive hst).1
  rw [hL] at hbuffers
  refine ⟨t, hst, ?_⟩
  rcases hcase with ⟨ht, -⟩ | ⟨ht, hlt, heq⟩ | ⟨ht, hlt, hzero, -⟩
  · exact .inl ⟨ht, hbuffers⟩
  · exact .inr ⟨⟨hlive', ht, hbuffers⟩, by omega⟩
  · exact .inr ⟨⟨hlive', ht, hbuffers⟩, by omega⟩

/-- How many steps a `peek` still takes. -/
def peekSteps : ConsumerPc → ℕ
  | .loadProducer _ => 4
  | .loadEnd _ _ => 3
  | .rollOver _ => 2
  | .reload _ => 1
  | _ => 0

/-- A step of `peek`. -/
lemma peeking_step {i sb : ℕ} (h : s.Running names) (hpc : s.poll = .peeking i sb) :
    ∃ t, s.pollStep names = some t ∧ t.threadBuffers = s.threadBuffers ∧
      ((∃ pos avail, (s.chans sb).cons = .idle pos avail ∧
          t.chans = s.chans ∧ (0 < avail ∧ t.poll = .append i sb avail ∨
            avail = 0 ∧ t.poll = .checkDelete i sb)) ∨
        t.poll = .peeking i sb ∧ peekSteps (t.chans sb).cons < peekSteps (s.chans sb).cons ∧
          (s.chans sb).consumerStep .advance = some (t.chans sb)) := by
  obtain ⟨hinv, hrun⟩ := reachable_runInv h.reachable
  have hpeek := hrun.inPeek hpc
  have hadvance {c : Channel} (hc : (s.chans sb).consumerStep .advance = some c)
      (hidle : ∀ pos avail, (s.chans sb).cons ≠ .idle pos avail)
      (hlt : peekSteps c.cons < peekSteps (s.chans sb).cons) :
      ∃ t, s.pollStep names = some t ∧ t.threadBuffers = s.threadBuffers ∧
        t.poll = .peeking i sb ∧ peekSteps (t.chans sb).cons < peekSteps (s.chans sb).cons ∧
          (s.chans sb).consumerStep .advance = some (t.chans sb) := by
    refine ⟨s.setChan sb c, ?_, rfl, hpc, ?_, ?_⟩
    · simp only [pollStep, hpc, hc, Option.map_some]
    · rwa [setChan_chans, if_pos rfl]
    · rwa [setChan_chans, if_pos rfl]
  cases hcons : (s.chans sb).cons with
  | idle pos avail =>
      refine ⟨{ s with poll := if 0 < avail then .append i sb avail else .checkDelete i sb }, ?_,
        rfl, .inl ⟨pos, avail, rfl, rfl, ?_⟩⟩
      · simp only [pollStep, hpc, hcons]
      · obtain rfl | hpos := Nat.eq_zero_or_pos avail
        · exact .inr ⟨rfl, rfl⟩
        · exact .inl ⟨hpos, if_pos hpos⟩
  | storeConsumer =>
      rw [hcons] at hpeek
      cases hpeek
  | loadProducer cur =>
      rw [hcons] at hadvance
      obtain ⟨t, ht⟩ := hadvance (by simp [Channel.consumerStep, hcons]; rfl) (by simp)
        (by dsimp only; split_ifs <;> simp [peekSteps])
      exact ⟨t, ht.1, ht.2.1, .inr ht.2.2⟩
  | loadEnd cur cached =>
      rw [hcons] at hadvance
      obtain ⟨t, ht⟩ := hadvance (by simp [Channel.consumerStep, hcons]; rfl) (by simp)
        (by dsimp only; split_ifs <;> simp [peekSteps])
      exact ⟨t, ht.1, ht.2.1, .inr ht.2.2⟩
  | rollOver cached =>
      rw [hcons] at hadvance
      obtain ⟨t, ht⟩ := hadvance (by simp [Channel.consumerStep, hcons]; rfl) (by simp)
        (by simp [peekSteps])
      exact ⟨t, ht.1, ht.2.1, .inr ht.2.2⟩
  | reload cached =>
      rw [hcons] at hadvance
      obtain ⟨t, ht⟩ := hadvance (by simp [Channel.consumerStep, hcons]; rfl) (by simp)
        (by simp [peekSteps])
      exact ⟨t, ht.1, ht.2.1, .inr ht.2.2⟩

/-- `poll_` is in its visit at the index `k`. -/
def InVisit (k : ℕ) : PollPc → Prop
  | .peeking i _ | .append i _ _ | .copying i _ | .consuming i _ => i = k
  | .relock i | .checkDelete i _ | .delete i _ => i = k
  | _ => False

/-- The visit at the index `k` of `L` is over: `poll_` goes on to the next index, or it has taken
the staging buffer out. -/
def Visited (L : List ℕ) (k : ℕ) (s : Pipeline) : Prop :=
  s.poll = .scan (k + 1) ∧ s.threadBuffers = L ∨
    s.threadBuffers = L.eraseIdx k ∧
      (s.poll = .scan k ∨ s.poll = .loopHead ∧ L.eraseIdx k = [])

/-- `peek` returns. -/
lemma peeking_leadsTo (names : ℕ → ThreadName) (i sb : ℕ) (L : List ℕ) :
    (machine names).LeadsTo background
      (fun s => s.Running names ∧ s.poll = .peeking i sb ∧ s.threadBuffers = L)
      fun s => ((∃ len, s.poll = .append i sb len) ∨ s.poll = .checkDelete i sb) ∧
        s.threadBuffers = L := by
  refine .of_measure (fun s => peekSteps (s.chans sb).cons) ?_
  rintro s ⟨hlive, hpc, rfl⟩
  obtain ⟨t, hst, hbuffers, hcase⟩ := peeking_step hlive hpc
  have hreach := background_of_poll hst
  refine ⟨t, hreach, ?_⟩
  rcases hcase with ⟨pos, avail, -, -, ⟨-, ht⟩ | ⟨-, ht⟩⟩ | ⟨ht, hlt, -⟩
  · exact .inl ⟨.inl ⟨_, ht⟩, hbuffers⟩
  · exact .inl ⟨.inr ht, hbuffers⟩
  · exact .inr ⟨⟨(running_frame hlive hreach).1, ht, hbuffers⟩, hlt⟩

/-- **A visit comes to its end**, from every point of it. -/
lemma visit_leadsTo {k : ℕ} (h : s.Running names) (hpc : InVisit k s.poll) :
    ∃ t, (machine names).Reaches background s t ∧ Visited s.threadBuffers k t := by
  have hrelock {s : Pipeline} {L : List ℕ} (hpc : s.poll = .relock k) (hL : s.threadBuffers = L) :
      ∃ t, (machine names).Reaches background s t ∧ Visited L k t :=
    ⟨{ s with poll := .scan (k + 1) }, background_of_poll (by simp [pollStep, hpc]),
      .inl ⟨rfl, hL⟩⟩
  have hcopying {s : Pipeline} {sb : ℕ} {L : List ℕ} (h : s.Running names)
      (hpc : s.poll = .copying k sb) (hL : s.threadBuffers = L) :
      ∃ t, (machine names).Reaches background s t ∧ Visited L k t := by
    obtain ⟨t, hst, ht, hbuffers⟩ := copying_leadsTo names k sb L s ⟨h, hpc, hL⟩
    obtain ⟨u, htu, hu⟩ := hrelock ht hbuffers
    exact ⟨u, hst.trans htu, hu⟩
  have happend {s : Pipeline} {sb len : ℕ} {L : List ℕ} (h : s.Running names)
      (hpc : s.poll = .append k sb len) (hL : s.threadBuffers = L) :
      ∃ t, (machine names).Reaches background s t ∧ Visited L k t := by
    obtain ⟨t, hst, ht, hbuffers, -⟩ := append_leadsTo h hpc
    obtain ⟨u, htu, hu⟩ := hcopying (running_frame h hst).1 ht (hbuffers.trans hL)
    exact ⟨u, hst.trans htu, hu⟩
  have hdelete {s : Pipeline} {sb : ℕ} {L : List ℕ} (hpc : s.poll = .delete k sb)
      (hL : s.threadBuffers = L) :
      ∃ t, (machine names).Reaches background s t ∧ Visited L k t := by
    subst hL
    refine ⟨_, background_of_poll (by simp only [pollStep, hpc]; rfl), .inr ⟨rfl, ?_⟩⟩
    dsimp only
    split_ifs with hempty
    · exact .inr ⟨rfl, hempty⟩
    · exact .inl rfl
  have hcheck {s : Pipeline} {sb : ℕ} {L : List ℕ} (hpc : s.poll = .checkDelete k sb)
      (hL : s.threadBuffers = L) :
      ∃ t, (machine names).Reaches background s t ∧ Visited L k t := by
    by_cases hcan : (s.chans sb).buf.checkCanDelete = true
    · obtain ⟨t, hst, ht⟩ := hdelete (s := { s with poll := .delete k sb })
        (show _ = PollPc.delete k sb from rfl) hL
      exact ⟨t, (background_of_poll (by simp [pollStep, hpc, hcan])).trans hst, ht⟩
    · exact ⟨{ s with poll := .scan (k + 1) }, background_of_poll (by simp [pollStep, hpc, hcan]),
        .inl ⟨rfl, hL⟩⟩
  cases hs : s.poll with
  | peeking i sb =>
      rw [hs] at hpc
      obtain rfl : i = k := hpc
      obtain ⟨t, hst, ⟨len, ht⟩ | ht, hbuffers⟩ :=
        peeking_leadsTo names i sb s.threadBuffers s ⟨h, hs, rfl⟩
      · obtain ⟨u, htu, hu⟩ := happend (running_frame h hst).1 ht hbuffers
        exact ⟨u, hst.trans htu, hu⟩
      · obtain ⟨u, htu, hu⟩ := hcheck ht hbuffers
        exact ⟨u, hst.trans htu, hu⟩
  | append i sb len =>
      rw [hs] at hpc
      obtain rfl : i = k := hpc
      exact happend h hs rfl
  | copying i sb =>
      rw [hs] at hpc
      obtain rfl : i = k := hpc
      exact hcopying h hs rfl
  | consuming i sb =>
      rw [hs] at hpc
      obtain rfl : i = k := hpc
      obtain ⟨t, hst, ht, hbuffers, -⟩ := consuming_step h hs
      obtain ⟨u, htu, hu⟩ := hcopying (running_frame h hst).1 ht hbuffers
      exact ⟨u, hst.trans htu, hu⟩
  | relock i =>
      rw [hs] at hpc
      obtain rfl : i = k := hpc
      exact hrelock hs rfl
  | checkDelete i sb =>
      rw [hs] at hpc
      obtain rfl : i = k := hpc
      exact hcheck hs rfl
  | delete i sb =>
      rw [hs] at hpc
      obtain rfl : i = k := hpc
      exact hdelete hs rfl
  | _ =>
      rw [hs] at hpc
      exact hpc.elim

/-- A visit begins with a call of `peek`. -/
lemma scan_step {k sb : ℕ} (h : s.Running names) (hpc : s.poll = .scan k)
    (hsb : s.threadBuffers[k]? = some sb) :
    ∃ t, (machine names).Reaches background s t ∧ t.poll = .peeking k sb ∧
      t.threadBuffers = s.threadBuffers ∧
      (t.chans sb).cons = .loadProducer (s.chans sb).buf.consumerPos := by
  obtain ⟨-, hrun⟩ := reachable_runInv h.reachable
  obtain ⟨pos, avail, hcons⟩ := hrun.outside hpc (fun _ _ => id) sb
  obtain ⟨c, hc, hpeek⟩ : ∃ c, (s.chans sb).consumerStep .peek = some c ∧
      c.cons = .loadProducer (s.chans sb).buf.consumerPos := by
    simp [Channel.consumerStep, hcons]
  refine ⟨{ s.setChan sb c with poll := .peeking k sb }, background_of_poll ?_, rfl, rfl, ?_⟩
  · simp only [pollStep, hpc, hsb, hc, Option.map_some]
  · dsimp only
    rw [setChan_chans, if_pos rfl, hpeek]

/-! ### Nothing stays in a staging buffer -/

/-- Something that was published is not consumed yet. -/
def Owes (c : Channel) : Prop := c.consumed ≠ c.finishedBytes

lemma Onward.owes (h : Onward s t) {i : ℕ} (howes : Owes (t.chans i))
    (hinv : (t.chans i).Inv) : Owes (s.chans i) := by
  intro heq
  have hbytes : (t.chans i).finishedBytes = (s.chans i).finishedBytes := by
    rw [Channel.finishedBytes, h.finished_eq, Channel.finishedBytes]
  have hpre := h.consumed_prefix i
  rw [heq, ← hbytes] at hpre
  refine howes (hpre.eq_of_length (le_antisymm hpre.length_le hinv.consumed_le)).symm

/-- **`peek` finds what is there.** -/
lemma peeking_finds {k i : ℕ} (C : ℕ) :
    (machine names).LeadsTo background
      (fun s => s.Live names ∧ s.poll = .peeking k i ∧ ¬(s.chans i).peeksNothing ∧
        Owes (s.chans i) ∧ C ≤ (s.chans i).consumed.length)
      fun s => ∃ len, 0 < len ∧ s.poll = .append k i len ∧ C ≤ (s.chans i).consumed.length := by
  refine .of_measure (fun s => peekSteps (s.chans i).cons) ?_
  rintro s ⟨hlive, hpc, hsome, howes, hC⟩
  obtain ⟨hinv, hrun⟩ := reachable_runInv hlive.reachable
  obtain ⟨t, hst, -, ⟨pos, avail, hcons, hsame, hcase⟩ | ⟨ht, hlt, hc⟩⟩ :=
    peeking_step hlive.running hpc
  · refine ⟨t, background_of_poll hst, .inl ?_⟩
    rcases hcase with ⟨hpos, ht⟩ | ⟨rfl, -⟩
    · exact ⟨avail, hpos, ht, by rw [hsame]; exact hC⟩
    · exact absurd (show (s.chans i).peeksNothing by rw [Channel.peeksNothing, hcons]) hsome
  · have hreach := background_of_poll hst
    obtain ⟨hconsumed, -, hback⟩ := Channel.peek_step (hinv.chan i) hc (hrun.inPeek hpc)
    obtain ⟨hlive', honward⟩ := background_frame hlive hreach
    refine ⟨t, hreach, .inr ⟨⟨hlive', ht, fun hnothing => ?_, ?_, ?_⟩, hlt⟩⟩
    · exact (hback hnothing).elim hsome howes
    · rw [Owes, hconsumed, Channel.finishedBytes, honward.finished_eq]
      exact howes
    · rw [hconsumed]
      exact hC

/-- **The copy loop consumes** what is left to copy. -/
lemma copying_consumes {k i : ℕ} (C : ℕ) :
    (machine names).LeadsTo background
      (fun s => s.Live names ∧ s.poll = .copying k i ∧ 0 < remaining s.sink.app ∧
        C ≤ (s.chans i).consumed.length)
      fun s => C < (s.chans i).consumed.length := by
  refine .of_measure (fun s => counting s.sink.app) ?_
  rintro s ⟨hlive, hpc, hpos, hC⟩
  obtain ⟨t, hst, -, hcase⟩ := copying_step hlive.running hpc
  obtain ⟨hlive', honward⟩ := background_frame hlive hst
  have hle := (honward.consumed_prefix i).length_le
  refine ⟨t, hst, ?_⟩
  rcases hcase with ⟨-, hzero⟩ | ⟨ht, hlt, heq⟩ | ⟨-, -, -, hgrown⟩
  · omega
  · exact .inr ⟨⟨hlive', ht, by omega, by omega⟩, hlt⟩
  · exact .inl (by omega)

/-- A visit to a staging buffer that owes something consumes some of it. -/
lemma scan_consumes {k i : ℕ} (h : s.Live names) (hpc : s.poll = .scan k)
    (hi : s.threadBuffers[k]? = some i) (howes : Owes (s.chans i)) :
    ∃ t, (machine names).Reaches background s t ∧
      (s.chans i).consumed.length < (t.chans i).consumed.length := by
  obtain ⟨t, hst, ht, -, hcons⟩ := scan_step h.running hpc hi
  obtain ⟨hlive, honward⟩ := background_frame h hst
  have hle := (honward.consumed_prefix i).length_le
  by_cases hgrown : (s.chans i).consumed.length < (t.chans i).consumed.length
  · exact ⟨t, hst, hgrown⟩
  have howes' : Owes (t.chans i) := by
    rw [Owes, Channel.finishedBytes, honward.finished_eq,
      ← (honward.consumed_prefix i).eq_of_length (by omega)]
    exact howes
  have hsome : ¬(t.chans i).peeksNothing := by
    rw [Channel.peeksNothing, hcons]
    exact id
  obtain ⟨u, htu, len, hpos, hu, hle'⟩ := peeking_finds (s.chans i).consumed.length t
    ⟨hlive, ht, hsome, howes', hle⟩
  obtain ⟨hlive', -⟩ := background_frame hlive htu
  obtain ⟨v, huv, hv, -, hremaining⟩ := append_leadsTo hlive'.running hu
  obtain ⟨hlive'', honward'⟩ := background_frame hlive' huv
  have hle'' := (honward'.consumed_prefix i).length_le
  obtain ⟨w, hvw, hw⟩ := copying_consumes (s.chans i).consumed.length v
    ⟨hlive'', hv, by omega, by omega⟩
  exact ⟨w, ((hst.trans htu).trans huv).trans hvw, hw⟩

/-- **`poll_` comes to the head of its loop**, from wherever it is. -/
lemma poll_toLoopHead (h : s.Running names) (hexited : s.poll ≠ .exited) :
    ∃ t, (machine names).Reaches background s t ∧ t.poll = .loopHead := by
  have hscan : (machine names).LeadsTo background
      (fun s => s.Running names ∧ ∃ k, s.poll = .scan k) fun s => s.poll = .loopHead := by
    refine .of_measure (fun s => match s.poll with
      | .scan k => s.threadBuffers.length - k
      | _ => 0) ?_
    rintro s ⟨hlive, k, hpc⟩
    cases hsb : s.threadBuffers[k]? with
    | none =>
        exact ⟨{ s with poll := .loopHead }, background_of_poll (by simp [pollStep, hpc, hsb]),
          .inl rfl⟩
    | some sb =>
        obtain ⟨t, hst, ht, hbuffers, -⟩ := scan_step hlive hpc hsb
        obtain ⟨hlive', -⟩ := running_frame hlive hst
        obtain ⟨u, htu, hu⟩ := visit_leadsTo (k := k) hlive' (by rw [ht]; rfl)
        obtain ⟨hlive'', -⟩ := running_frame hlive' htu
        have hlt := (List.getElem?_eq_some_iff.mp hsb).1
        rw [hbuffers] at hu
        refine ⟨u, hst.trans htu, ?_⟩
        rcases hu with ⟨hu, hL⟩ | ⟨hL, hu | ⟨hu, -⟩⟩
        · refine .inr ⟨⟨hlive'', _, hu⟩, ?_⟩
          simp only [hu, hpc, hL]
          omega
        · refine .inr ⟨⟨hlive'', _, hu⟩, ?_⟩
          simp only [hu, hpc, hL, List.length_eraseIdx_of_lt hlt]
          omega
        · exact .inl hu
  have hvisit {k : ℕ} (hpc : InVisit k s.poll) :
      ∃ t, (machine names).Reaches background s t ∧ t.poll = .loopHead := by
    obtain ⟨t, hst, ht⟩ := visit_leadsTo h hpc
    obtain ⟨hlive, -⟩ := running_frame h hst
    rcases ht with ⟨ht, -⟩ | ⟨-, ht | ⟨ht, -⟩⟩
    · obtain ⟨u, htu, hu⟩ := hscan t ⟨hlive, _, ht⟩
      exact ⟨u, hst.trans htu, hu⟩
    · obtain ⟨u, htu, hu⟩ := hscan t ⟨hlive, _, ht⟩
      exact ⟨u, hst.trans htu, hu⟩
    · exact ⟨t, hst, ht⟩
  cases hpc : s.poll with
  | loopHead => exact ⟨s, .refl, hpc⟩
  | lock =>
      have hfirst : (machine names).Reaches background s { s with poll := .scan 0 } :=
        background_of_poll (by simp [pollStep, hpc])
      obtain ⟨t, hst, ht⟩ := hscan _ ⟨(running_frame h hfirst).1, 0, rfl⟩
      exact ⟨t, hfirst.trans hst, ht⟩
  | scan k => exact hscan s ⟨h, k, hpc⟩
  | exited => exact absurd hpc hexited
  | _ => exact hvisit (by rw [hpc]; rfl)

/-- `poll_` comes to a staging buffer that is still ahead of it. -/
lemma scan_reaches {i d : ℕ} : ∀ {s : Pipeline} {k : ℕ}, s.Live names → s.poll = .scan k →
    s.threadBuffers[k + d]? = some i →
    ∃ t k', (machine names).Reaches background s t ∧ t.poll = .scan k' ∧
      t.threadBuffers[k']? = some i := by
  induction d with
  | zero => exact fun {s k} _ hpc hi => ⟨s, k, .refl, hpc, hi⟩
  | succ d ih =>
      intro s k h hpc hi
      have hlt := (List.getElem?_eq_some_iff.mp hi).1
      obtain ⟨sb, hsb⟩ : ∃ sb, s.threadBuffers[k]? = some sb :=
        ⟨_, List.getElem?_eq_getElem (by omega)⟩
      obtain ⟨t, hst, ht, hbuffers, -⟩ := scan_step h.running hpc hsb
      obtain ⟨hlive, -⟩ := background_frame h hst
      obtain ⟨u, htu, hu⟩ := visit_leadsTo (k := k) hlive.running (by rw [ht]; rfl)
      obtain ⟨hlive', -⟩ := background_frame hlive htu
      rw [hbuffers] at hu
      have herase : (s.threadBuffers.eraseIdx k)[k + d]? = some i := by
        rw [List.getElem?_eraseIdx, if_neg (by omega)]
        exact hi
      obtain ⟨v, k', huv, hv⟩ : ∃ v k', (machine names).Reaches background u v ∧
          v.poll = .scan k' ∧ v.threadBuffers[k']? = some i := by
        rcases hu with ⟨hu, hL⟩ | ⟨hL, hu | ⟨-, hempty⟩⟩
        · exact ih hlive' hu (by rw [hL, ← hi]; congr 1; omega)
        · exact ih hlive' hu (by rw [hL, herase])
        · rw [hempty] at herase
          cases herase
      exact ⟨v, k', (hst.trans htu).trans huv, hv⟩

/-- `poll_` comes to the staging buffer of a thread that logs, in the next round at the latest. -/
lemma poll_comesTo {i : ℕ} (h : s.Live names) (hi : s.threads i = .logging) :
    ∃ t, (machine names).Reaches background s t ∧
      ∃ k, t.poll = .scan k ∧ t.threadBuffers[k]? = some i := by
  obtain ⟨t, hst, ht⟩ := poll_toLoopHead h.running h.poll_ne
  obtain ⟨hlive, honward⟩ := background_frame h hst
  obtain ⟨-, hrun⟩ := reachable_runInv hlive.reachable
  have hlock : (machine names).Reaches background t { t with poll := .lock } :=
    background_of_poll (by simp [pollStep, ht, (hrun.alive hlive.alive).1])
  have hscan : (machine names).Reaches background { t with poll := .lock }
      { t with poll := .scan 0 } := background_of_poll (by simp [pollStep])
  have hround := hlock.trans hscan
  have hmem := hrun.registered i (by rw [honward.threads_eq, hi])
  obtain ⟨d, hd, hdi⟩ := List.getElem_of_mem hmem
  obtain ⟨u, k, htu, hu, hki⟩ := scan_reaches (d := d) (background_frame hlive hround).1 rfl (show
      ({ t with poll := .scan 0 } : Pipeline).threadBuffers[0 + d]? = some i by
    rw [Nat.zero_add, List.getElem?_eq_getElem hd, hdi])
  exact ⟨u, (hst.trans hround).trans htu, k, hu, hki⟩

/-- **Progress**: what a logging thread has published gets less in its staging buffer. -/
lemma progress {i : ℕ} (h : s.Live names) (hi : s.threads i = .logging)
    (howes : Owes (s.chans i)) :
    ∃ t, (machine names).Reaches background s t ∧
      (s.chans i).consumed.length < (t.chans i).consumed.length := by
  obtain ⟨t, hst, k, ht, hki⟩ := poll_comesTo h hi
  obtain ⟨hlive, honward⟩ := background_frame h hst
  by_cases hgrown : (s.chans i).consumed.length < (t.chans i).consumed.length
  · exact ⟨t, hst, hgrown⟩
  have hsame := (honward.consumed_prefix i).eq_of_length
    (le_antisymm (honward.consumed_prefix i).length_le (not_lt.mp hgrown))
  obtain ⟨u, htu, hu⟩ := scan_consumes hlive ht hki (by
    rw [Owes, ← hsame, Channel.finishedBytes, honward.finished_eq]
    exact howes)
  exact ⟨u, hst.trans htu, by rwa [hsame]⟩

/-! ### All of it is formatted -/

/-- If its thread still logs, nothing is left in the staging buffer `i`. -/
def Settled (s : Pipeline) (i : ℕ) : Prop := s.threads i = .logging → ¬Owes (s.chans i)

lemma Settled.onward {i : ℕ} (h : s.Settled i) (h' : Onward s t) (hinv : (t.chans i).Inv) :
    t.Settled i := by
  intro hi howes
  rw [h'.threads_eq] at hi
  exact h hi (h'.owes howes hinv)

/-- The background threads empty one staging buffer, -/
lemma settles (names : ℕ → ThreadName) (i : ℕ) :
    (machine names).LeadsTo background (Live names) fun s => s.Settled i := by
  refine .of_measure (fun s => (s.chans i).finishedBytes.length - (s.chans i).consumed.length) ?_
  intro s h
  by_cases hs : s.Settled i
  · exact ⟨s, .refl, .inl hs⟩
  rw [Settled, Classical.not_imp, not_not] at hs
  obtain ⟨t, hst, hlt⟩ := progress h hs.1 hs.2
  obtain ⟨hlive, honward⟩ := background_frame h hst
  have hbytes : (t.chans i).finishedBytes = (s.chans i).finishedBytes := by
    rw [Channel.finishedBytes, honward.finished_eq, Channel.finishedBytes]
  have hle := ((reachable_inv hlive.reachable).chan i).consumed_le
  refine ⟨t, hst, .inr ⟨hlive, ?_⟩⟩
  rw [hbytes] at hle ⊢
  omega

/-- and one after the other all of a list. -/
lemma all_settle (names : ℕ → ThreadName) (L : List ℕ) :
    (machine names).LeadsTo background (Live names) fun s => ∀ i ∈ L, s.Settled i := by
  induction L with
  | nil => exact fun s _ => ⟨s, .refl, by simp⟩
  | cons i L ih =>
      intro s h
      obtain ⟨t, hst, ht⟩ := ih s h
      obtain ⟨hlive, -⟩ := background_frame h hst
      obtain ⟨u, htu, hu⟩ := settles names i t hlive
      obtain ⟨hlive', honward⟩ := background_frame hlive htu
      refine ⟨u, hst.trans htu, fun j hj => ?_⟩
      rcases List.mem_cons.mp hj with rfl | hj
      · exact hu
      · exact (ht j hj).onward honward ((reachable_inv hlive'.reachable).chan j)

/-- What left a staging buffer is formatted once the sink's queue is empty. -/
lemma Inv.formatted_eq (h : s.Inv names) {i : ℕ} (hpoll : s.poll = .loopHead)
    (hpc : s.sink.pc = .loopHead) (hqueue : s.sink.queuedBlocks = [])
    (hcons : Outside (s.chans i).cons) (hsettled : ¬Owes (s.chans i)) :
    s.formattedFrom i = s.publishedBy i := by
  have happ := h.poll
  rw [hpoll] at happ
  have hqueued : s.queued i = [] := by
    rw [queued, hqueue]
    rfl
  have hlogged : s.logged i = (s.publishedBy i).flatten := by
    obtain ⟨pos, avail, hcons⟩ := hcons
    calc s.logged i
        = s.logged i ++ inFlight s.sink.app i := by
          rw [show s.sink.app = .outside from happ, inFlight_outside, List.append_nil]
      _ = (s.chans i).consumed := by
          rw [← h.taken i, (h.chan i).taken_of_committed (by rw [hcons]; rfl)]
      _ = (s.publishedBy i).flatten := by
          rw [not_not.mp hsettled, Channel.finishedBytes, publishedBy, List.flatMap]
  have hlen := h.formatted_length hpc i
  rw [hqueued, List.length_nil, Nat.add_zero, hlogged] at hlen
  -- of two prefixes of what was published, the longer one is all of it
  have hpre : s.publishedBy i <+: s.formattedFrom i := by
    have hall := prefix_of_length (fun e he => ?_) (s.publishedBy i).length
      (h.formattedFrom_prefix i) (by rw [List.take_length, hlen])
    · rwa [List.take_length] at hall
    · obtain ⟨r, hr, rfl⟩ := List.mem_map.mp he
      exact (h.entries i r hr).isRecord.ne_nil
  exact (h.formattedFrom_prefix i).eq_of_length
    (le_antisymm (h.formattedFrom_prefix i).length_le hpre.length_le)

/-- **What is published gets formatted.** From every reachable state before the destructor
begins, the poll thread and the sink thread alone can come to a state where all that the threads
that still log have published is formatted, in the order of each thread, and nothing is queued. -/
theorem drains (h : (machine names).Reachable s) (halive : s.destructor = .alive) :
    ∃ t, (machine names).Reaches background s t ∧ t.poll = .loopHead ∧ t.sink.pc = .loopHead ∧
      t.sink.queuedBlocks = [] ∧ ∀ i, t.publishedBy i = s.publishedBy i ∧
        (s.threads i = .logging → t.formattedFrom i = s.publishedBy i) := by
  have hlive : s.Live names := ⟨h, halive⟩
  obtain ⟨t, hst, hsettled⟩ := all_settle names s.threadBuffers s hlive
  obtain ⟨hlive', honward⟩ := background_frame hlive hst
  obtain ⟨u, htu, hu⟩ := poll_toLoopHead hlive'.running hlive'.poll_ne
  obtain ⟨hlive'', honward'⟩ := background_frame hlive' htu
  have happ := (reachable_inv hlive''.reachable).poll
  rw [hu] at happ
  obtain ⟨k, huk, hk, hqueue⟩ := (hlive''.running.turning happ).flushes
  have hreach := ((hst.trans htu).trans (background_of_sink huk))
  obtain ⟨hdone, honward''⟩ := background_frame hlive hreach
  have hlater := (background_frame hlive' (htu.trans (background_of_sink huk))).2
  obtain ⟨hinv, hrun⟩ := reachable_runInv hdone.reachable
  refine ⟨{ u with sink := k }, hreach, hu, hk, hqueue, fun i => ?_⟩
  have hpublished : publishedBy { u with sink := k } i = s.publishedBy i := by
    rw [publishedBy, honward''.finished_eq, publishedBy]
  refine ⟨hpublished, fun hi => ?_⟩
  have hmem := (reachable_runInv h).2.registered i hi
  have hnone := ((hsettled i hmem).onward hlater (hinv.chan i)) (by rw [honward''.threads_eq, hi])
  rw [← hpublished]
  exact hinv.formatted_eq hu hk hqueue (hrun.outside hu (fun _ _ => id) i) hnone

/-- The entry of the thread `0` is still in its staging buffer. -/
theorem drains_publishSample : ∃ s t, (machine sampleNames).exec new publishSample = some s ∧
    s.formattedFrom 0 = [] ∧ (machine sampleNames).Reaches background s t ∧
    t.formattedFrom 0 = [Sink.sampleEntry] := by
  have hrun : (machine sampleNames).exec new publishSample = some _ := rfl
  obtain ⟨t, hst, -, -, -, ht⟩ := drains (Machine.reachable_of_exec hrun) rfl
  exact ⟨_, t, hrun, rfl, hst, (ht 0).2 rfl⟩

end Pipeline

end ConstexprFmtStr
