import Mathlib.Tactic
import ConstexprFmtStr.Runtime.EndToEnd

/-!
What is lost when a thread or the runtime logger ends.

* `Pipeline.pollStep_frame`: `poll_` moves only consumers and the appender.
* `Pipeline.foundNothing`, `exitsSeen`: `peek` has found a staging buffer empty and
  `checkCanDelete` is still to come; a thread that ends in between must have nothing left in it.
  `delete_consumed` is about the runs in which every thread does so, and shows what happens to
  one that does not.
* `Pipeline.exitsDrained`: the two loops end with nothing left that was published before the
  destructor began. `shutdown_formatted` is about the runs in which they do.
-/

namespace ConstexprFmtStr

open Slice Word

namespace Channel

attribute [local simp] consumerStep

variable {s t : Channel}

/-! ### A peek that finds nothing -/

/-- The last `peek` has found nothing, or will whatever is published before its end. -/
def peeksNothing (s : Channel) : Prop :=
  match s.cons with
  | .idle _ avail => avail = 0
  | .loadEnd cur cached => s.buf.endOfRecordedSpace = cur ∧ cached = 0
  | .rollOver cached => cached = 0
  | .reload cached => cached = 0
  | _ => False

lemma Inv.consumed_of_owed (h : s.Inv) (howed : s.buf.owed = []) :
    s.consumed = s.finishedBytes := by
  rw [h.finishedBytes_eq, howed, located_nil, List.map_nil, List.append_nil]

/-- The consumer is in `peek`, or between calls. -/
def inPeek : ConsumerPc → Bool
  | .storeConsumer _ _ _ _ => false
  | _ => true

/-- A call of `peek` first loads `_producerPos`. -/
lemma peek_call (ht : s.consumerStep .peek = some t) :
    t.cons = .loadProducer s.buf.consumerPos := by
  cases hpc : s.cons <;> simp [hpc] at ht
  rw [← ht]

/-- A `peek` that finds nothing has found the buffer empty when it loaded `_producerPos`. -/
lemma peek_step (h : s.Inv) (ht : s.consumerStep .advance = some t)
    (hpeek : inPeek s.cons = true) :
    t.consumed = s.consumed ∧ inPeek t.cons = true ∧
      (t.peeksNothing → s.peeksNothing ∨ s.consumed = s.finishedBytes) := by
  have hcons := h.consumer
  have hS := stagingBufferSize_lt
  have hlt := h.positions.producer_lt
  cases hpc : s.cons with
  | idle pos avail => simp [hpc] at ht
  | storeConsumer pos avail nbytes cur => simp [hpc, inPeek] at hpeek
  | loadProducer cur =>
      rw [hpc] at hcons
      obtain rfl : cur = s.buf.consumerPos := hcons
      simp only [consumerStep, hpc, Option.some.injEq] at ht
      subst ht
      split_ifs with hw
      · refine ⟨rfl, rfl, fun hnothing => .inr (h.consumed_of_owed ?_)⟩
        obtain ⟨hend, hzero⟩ := hnothing
        rw [StagingBuffer.owed, span_of_lt hw, hzero]
        dsimp only at hend
        simp [hend]
      · refine ⟨rfl, rfl, fun hnothing => .inr (h.consumed_of_owed ?_)⟩
        simp only [peeksNothing] at hnothing
        rw [u64Sub_of_le (by omega) (by omega)] at hnothing
        rw [StagingBuffer.owed, span_of_le (by omega), hnothing]
        rfl
  | loadEnd cur cached =>
      rw [hpc] at hcons
      obtain ⟨rfl, -, hw, -⟩ := hcons
      obtain ⟨hce, heS⟩ := h.positions.wrapped hw
      simp only [consumerStep, hpc, Option.some.injEq] at ht
      rw [u64Sub_of_le hce (by omega)] at ht
      subst ht
      split_ifs with havail
      · exact ⟨rfl, rfl, fun hnothing => absurd hnothing havail.ne'⟩
      · refine ⟨rfl, rfl, fun hnothing => .inl ?_⟩
        rw [peeksNothing, hpc]
        exact ⟨by omega, hnothing⟩
  | rollOver cached =>
      simp only [consumerStep, hpc, Option.some.injEq] at ht
      subst ht
      refine ⟨rfl, rfl, fun hnothing => .inl ?_⟩
      rw [peeksNothing, hpc]
      exact hnothing
  | reload cached =>
      rw [hpc] at hcons
      obtain ⟨hc0, hcached, -⟩ := hcons
      simp only [consumerStep, hpc, Option.some.injEq] at ht
      subst ht
      refine ⟨rfl, rfl, fun hnothing => .inl ?_⟩
      simp only [peeksNothing] at hnothing
      rw [u64Sub_of_le (by omega) (by omega)] at hnothing
      rw [peeksNothing, hpc]
      dsimp only
      omega

/-- How many steps a `peek` that finds nothing still takes. -/
def peekLeft : ConsumerPc → ℕ
  | .loadEnd _ _ => 3
  | .rollOver _ => 2
  | .reload _ => 1
  | _ => 0

/-- From a `peek` that finds nothing the consumer comes to its end. -/
lemma peeksNothing_step (h : s.Inv) (hnothing : s.peeksNothing) :
    (∃ pos, s.cons = .idle pos 0) ∨ (∀ pos avail, s.cons ≠ .idle pos avail) ∧
      ∃ t, s.consumerStep .advance = some t ∧ t.peeksNothing ∧
        peekLeft t.cons < peekLeft s.cons ∧ t.consumed = s.consumed := by
  have hcons := h.consumer
  cases hpc : s.cons with
  | idle pos avail =>
      rw [peeksNothing, hpc] at hnothing
      exact .inl ⟨pos, by rw [show avail = 0 from hnothing]⟩
  | loadEnd cur cached =>
      rw [peeksNothing, hpc] at hnothing
      obtain ⟨hend, rfl⟩ := hnothing
      refine .inr ⟨by simp, ⟨{ s with cons := .rollOver 0 }, ?_, rfl, by simp [peekLeft], rfl⟩⟩
      simp [hpc, hend, u64Sub, wrapU]
  | rollOver cached =>
      rw [peeksNothing, hpc] at hnothing
      obtain rfl : cached = 0 := hnothing
      refine .inr ⟨by simp, ⟨{ s with buf := { s.buf with consumerPos := 0 }, cons := .reload 0 },
        ?_, rfl, by simp [peekLeft], rfl⟩⟩
      simp [hpc]
  | reload cached =>
      rw [peeksNothing, hpc] at hnothing
      rw [hpc] at hcons
      refine .inr ⟨by simp, ⟨{ s with cons := .idle 0 0 }, ?_, rfl, by simp [peekLeft], rfl⟩⟩
      simp [hpc, hcons.1, show cached = 0 from hnothing, u64Sub, wrapU]
  | loadProducer cur =>
      rw [peeksNothing, hpc] at hnothing
      exact hnothing.elim
  | storeConsumer pos avail nbytes cur =>
      rw [peeksNothing, hpc] at hnothing
      exact hnothing.elim

end Channel

namespace Pipeline

variable {names : ℕ → ThreadName} {s t : Pipeline}

/-! ### What `poll_` moves -/

/-- `poll_` moves only the consumers and the appender, and ends only when told to. -/
lemma pollStep_frame (ht : s.pollStep names = some t) :
    (t.threads = s.threads ∧ t.destructor = s.destructor ∧
        t.bgThreadShouldExit = s.bgThreadShouldExit ∧ t.atDestruction = s.atDestruction) ∧
      (t.sink = s.sink ∨ ∃ a, s.sink.appenderStep a = some t.sink) ∧
      (∀ i, t.chans i = s.chans i ∨ ∃ a, (s.chans i).consumerStep a = some (t.chans i)) ∧
      s.poll ≠ .exited ∧
      (t.poll = .exited → s.poll = .loopHead ∧ s.bgThreadShouldExit = true) := by
  have hchan {sb : ℕ} {c : Channel} {a : ConsumerAct} (hc : (s.chans sb).consumerStep a = some c)
      (i : ℕ) : (s.setChan sb c).chans i = s.chans i ∨
        ∃ a, (s.chans i).consumerStep a = some ((s.setChan sb c).chans i) := by
    rw [setChan_chans]
    split_ifs with hi
    · rw [hi]
      exact .inr ⟨a, hc⟩
    · exact .inl rfl
  cases pollStep_cases ht with
  | exit hpc hexit =>
      exact ⟨⟨rfl, rfl, rfl, rfl⟩, .inl rfl, fun i => .inl rfl, by simp [hpc],
        fun _ => ⟨hpc, hexit⟩⟩
  | peek hpc hc | consume hpc hc | peeking hpc hc =>
      exact ⟨⟨rfl, rfl, rfl, rfl⟩, .inl rfl, hchan hc, by simp [hpc], by simp [setChan, hpc]⟩
  | retry hpc hk | append hpc hk | count hpc _ hk | finish hpc _ hk =>
      exact ⟨⟨rfl, rfl, rfl, rfl⟩, .inr ⟨_, hk⟩, fun i => .inl rfl, by simp [hpc], by simp [hpc]⟩
  | copy hpc _ _ hk hc =>
      exact ⟨⟨rfl, rfl, rfl, rfl⟩, .inr ⟨_, hk⟩, hchan hc, by simp [hpc], by simp⟩
  | delete hpc hto =>
      refine ⟨⟨rfl, rfl, rfl, rfl⟩, .inl rfl, fun i => .inl rfl, by simp [hpc], fun hexit => ?_⟩
      dsimp only at hexit
      rcases hto with hto | hto <;> simp [hto] at hexit
  | loop hpc | lock hpc | rescan hpc | found hpc | foundNothing hpc | relock hpc | keep hpc
  | checkDelete hpc =>
      exact ⟨⟨rfl, rfl, rfl, rfl⟩, .inl rfl, fun i => .inl rfl, by simp [hpc], by simp⟩

/-- Where `poll_` may be on the way to `delete sb`. -/
lemma pollStep_toDelete (ht : s.pollStep names = some t) :
    (∀ j i, t.poll = .peeking j i → (∃ cur, (t.chans i).cons = .loadProducer cur) ∨
        s.poll = .peeking j i ∧ (s.chans i).consumerStep .advance = some (t.chans i)) ∧
      (∀ j i, t.poll = .checkDelete j i → s.poll = .peeking j i ∧ t.chans = s.chans ∧
        ∃ pos, (s.chans i).cons = .idle pos 0) ∧
      (∀ j i, t.poll = .delete j i → s.poll = .checkDelete j i ∧ t.chans = s.chans ∧
        (s.chans i).buf.shouldDeallocate = true) := by
  cases pollStep_cases ht with
  | @peek i sb c hpc hc =>
      refine ⟨fun j i' hj => .inl ?_, by simp, by simp⟩
      simp only [PollPc.peeking.injEq] at hj
      obtain ⟨-, rfl⟩ := hj
      dsimp only
      rw [setChan_chans, if_pos rfl]
      exact ⟨_, Channel.peek_call hc⟩
  | @peeking i sb c hpc hc =>
      refine ⟨fun j i' hj => .inr ?_, by simp [setChan, hpc], by simp [setChan, hpc]⟩
      simp only [setChan, hpc, PollPc.peeking.injEq] at hj
      obtain ⟨rfl, rfl⟩ := hj
      refine ⟨hpc, ?_⟩
      rw [setChan_chans, if_pos rfl]
      exact hc
  | @foundNothing i sb pos hpc hcons =>
      refine ⟨by simp, fun j i' hj => ?_, by simp⟩
      cases hj
      exact ⟨hpc, rfl, pos, hcons⟩
  | @checkDelete i sb hpc hcan =>
      refine ⟨by simp, by simp, fun j i' hj => ?_⟩
      cases hj
      exact ⟨hpc, rfl, hcan⟩
  | delete hpc hto => rcases hto with rfl | rfl <;> simp
  | retry hpc | count hpc => simp [hpc]
  | _ => simp

/-! ### Deleting a staging buffer -/

/-- `poll_` has found the staging buffer of the thread `i` empty, or will when `peek` returns,
and has not looked at `checkCanDelete` yet. -/
def foundNothing (s : Pipeline) (i : ℕ) : Prop :=
  match s.poll with
  | .peeking _ sb => sb = i ∧ (s.chans i).peeksNothing
  | .checkDelete _ sb => sb = i
  | _ => False

/-- A thread that ends while `poll_` takes its staging buffer for empty has nothing in it. -/
def exitsSeen (s : Pipeline) (a : PipelineAct) : Prop :=
  ∀ i, a = .exit i → s.foundNothing i → (s.chans i).consumed = (s.chans i).finishedBytes

/-- What holds on the way to `delete sb`. -/
structure ExitInv (s : Pipeline) : Prop where
  exited : ∀ i, (s.chans i).buf.shouldDeallocate = true → s.threads i = .exited
  inPeek : ∀ j i, s.poll = .peeking j i → Channel.inPeek (s.chans i).cons = true
  nothing : ∀ i, s.threads i = .exited → s.foundNothing i →
    (s.chans i).consumed = (s.chans i).finishedBytes
  delete : ∀ j i, s.poll = .delete j i →
    s.threads i = .exited ∧ (s.chans i).consumed = (s.chans i).finishedBytes

/-- A step that leaves `poll_` and the staging buffers alone, and ends no thread. -/
lemma ExitInv.of_frame (h : s.ExitInv) (hchans : t.chans = s.chans) (hpoll : t.poll = s.poll)
    (hthreads : ∀ i, t.threads i = .exited ↔ s.threads i = .exited) : t.ExitInv := by
  have hnothing (i : ℕ) : t.foundNothing i ↔ s.foundNothing i := by
    rw [foundNothing, foundNothing, hchans, hpoll]
  refine ⟨fun i => ?_, fun j i => ?_, fun i => ?_, fun j i => ?_⟩
  · rw [hchans, hthreads]
    exact h.exited i
  · rw [hchans, hpoll]
    exact h.inPeek j i
  · rw [hthreads, hnothing, hchans]
    exact h.nothing i
  · rw [hpoll, hthreads, hchans]
    exact h.delete j i

/-- Publishing, by a thread that has not ended. -/
lemma exitInv_log (h : s.ExitInv) {i : ℕ} {a : ProducerAct} (ht : s.logStep i a = some t) :
    t.ExitInv := by
  simp only [logStep, Option.ite_none_right_eq_some, Option.map_eq_some_iff] at ht
  obtain ⟨⟨hlogging, -⟩, c, hc, rfl⟩ := ht
  obtain ⟨hcons, -, hflag, -⟩ := Channel.producerStep_frame hc
  have hother {j : ℕ} (hj : s.threads j = .exited) : (s.setChan i c).chans j = s.chans j := by
    rw [setChan_chans, if_neg]
    rintro rfl
    rw [hlogging] at hj
    cases hj
  refine ⟨fun j hj => h.exited j ?_, fun k j hpc => ?_, fun j hj hnothing => ?_,
    fun k j hpc => ?_⟩
  · rw [setChan_chans] at hj
    split_ifs at hj with hji
    · rw [hji, ← hflag]
      exact hj
    · exact hj
  · have := h.inPeek k j hpc
    rw [setChan_chans]
    split_ifs with hji
    · rw [hcons, ← hji]
      exact this
    · exact this
  · rw [hother hj]
    refine h.nothing j hj ?_
    rw [foundNothing, hother hj] at hnothing
    exact hnothing
  · obtain ⟨hj, hconsumed⟩ := h.delete k j hpc
    rw [hother hj]
    exact ⟨hj, hconsumed⟩

/-- What the end of a thread changes: its phase and its flag. -/
lemma exitStep_frame {i : ℕ} (ht : s.exitStep i = some t) :
    s.threads i = .logging ∧ t.threads = Function.update s.threads i .exited ∧
      t.poll = s.poll ∧ (t.chans i).buf.shouldDeallocate = true ∧
      (∀ j, j ≠ i → t.chans j = s.chans j) ∧
      ∀ j, (t.chans j).consumed = (s.chans j).consumed ∧
        (t.chans j).finishedBytes = (s.chans j).finishedBytes ∧
        (t.chans j).cons = (s.chans j).cons ∧
        ((t.chans j).peeksNothing ↔ (s.chans j).peeksNothing) := by
  obtain ⟨hlogging, rfl⟩ : s.threads i = .logging ∧
      { s.setChan i { s.chans i with buf := { (s.chans i).buf with shouldDeallocate := true } } with
        threads := Function.update s.threads i .exited } = t := by
    simp only [exitStep] at ht
    split at ht <;> simp_all
  refine ⟨hlogging, rfl, rfl, ?_, fun j hj => ?_, fun j => ?_⟩
  · dsimp only
    rw [setChan_chans, if_pos rfl]
  · dsimp only
    rw [setChan_chans, if_neg hj]
  · dsimp only
    rw [setChan_chans]
    split_ifs with hj
    · rw [hj]
      exact ⟨rfl, rfl, rfl, Iff.rfl⟩
    · exact ⟨rfl, rfl, rfl, Iff.rfl⟩

/-- The end of a thread that leaves nothing behind. -/
lemma exitInv_exit (h : s.ExitInv) {i : ℕ} (hG : s.exitsSeen (.exit i))
    (ht : s.exitStep i = some t) : t.ExitInv := by
  obtain ⟨hlogging, hthreads, hpoll, -, hother, hsame⟩ := exitStep_frame ht
  have hnothing (j : ℕ) : t.foundNothing j ↔ s.foundNothing j := by
    rw [foundNothing, foundNothing, hpoll]
    cases s.poll <;> simp only [(hsame j).2.2.2]
  have hexited {j : ℕ} (hj : j ≠ i) : t.threads j = s.threads j := by
    rw [hthreads, Function.update_of_ne hj]
  refine ⟨fun j hj => ?_, fun k j hpc => ?_, fun j hj hn => ?_, fun k j hpc => ?_⟩
  · by_cases hji : j = i
    · rw [hji, hthreads, Function.update_self]
    · rw [hexited hji]
      rw [hother j hji] at hj
      exact h.exited j hj
  · rw [(hsame j).2.2.1]
    rw [hpoll] at hpc
    exact h.inPeek k j hpc
  · rw [(hsame j).1, (hsame j).2.1]
    rw [hnothing] at hn
    by_cases hji : j = i
    · subst hji
      exact hG j rfl hn
    · rw [hexited hji] at hj
      exact h.nothing j hj hn
  · rw [hpoll] at hpc
    obtain ⟨hj, hconsumed⟩ := h.delete k j hpc
    have hji : j ≠ i := by
      rintro rfl
      rw [hlogging] at hj
      cases hj
    rw [hexited hji, (hsame j).1, (hsame j).2.1]
    exact ⟨hj, hconsumed⟩

/-- `poll_` deletes only what it has found empty, and the thread of which has ended. -/
lemma exitInv_poll (hinv : s.Inv names) (h : s.ExitInv) (ht : s.pollStep names = some t) :
    t.ExitInv := by
  obtain ⟨⟨hthreads, -⟩, -, hchans, -⟩ := pollStep_frame ht
  obtain ⟨hpeeking, hcheck, hdelete⟩ := pollStep_toDelete ht
  refine ⟨fun i hi => ?_, fun j i hpc => ?_, fun i hi hnothing => ?_, fun j i hpc => ?_⟩
  · rw [hthreads]
    refine h.exited i ?_
    rcases hchans i with hc | ⟨a, hc⟩
    · rwa [hc] at hi
    · rwa [(Channel.consumerStep_frame hc).2.2.2.1] at hi
  · rcases hpeeking j i hpc with ⟨cur, hcons⟩ | ⟨hpc', hc⟩
    · rw [hcons]
      rfl
    · exact (Channel.peek_step (hinv.chan i) hc (h.inPeek j i hpc')).2.1
  · rw [hthreads] at hi
    rw [foundNothing] at hnothing
    cases hpc : t.poll <;> simp only [hpc] at hnothing
    case peeking j sb =>
      obtain ⟨rfl, hn⟩ := hnothing
      rcases hpeeking j sb hpc with ⟨cur, hcons⟩ | ⟨hpc', hc⟩
      · rw [Channel.peeksNothing, hcons] at hn
        exact hn.elim
      · obtain ⟨hconsumed, -, hback⟩ :=
          Channel.peek_step (hinv.chan sb) hc (h.inPeek j sb hpc')
        have hbytes : (t.chans sb).finishedBytes = (s.chans sb).finishedBytes := by
          rw [Channel.finishedBytes, (Channel.consumerStep_frame hc).2.1, Channel.finishedBytes]
        rw [hconsumed, hbytes]
        rcases hback hn with hn' | hempty
        · exact h.nothing sb hi (by rw [foundNothing, hpc']; exact ⟨rfl, hn'⟩)
        · exact hempty
    case checkDelete j sb =>
      subst hnothing
      obtain ⟨hpc', hsame, pos, hcons⟩ := hcheck j sb hpc
      rw [hsame]
      refine h.nothing sb hi ?_
      rw [foundNothing, hpc']
      exact ⟨rfl, by rw [Channel.peeksNothing, hcons]⟩
  · obtain ⟨hpc', hsame, hflag⟩ := hdelete j i hpc
    have hi := h.exited i hflag
    rw [hthreads, hsame]
    exact ⟨hi, h.nothing i hi (by rw [foundNothing, hpc'])⟩

/-- A step in which no thread leaves anything behind. -/
lemma step_exitInv (hinv : s.Inv names) (h : s.ExitInv) {a : PipelineAct} (hG : s.exitsSeen a)
    (ht : s.step names a = some t) : t.ExitInv := by
  cases a with
  | allocate i =>
      simp only [step, Option.ite_none_right_eq_some, Option.some.injEq] at ht
      obtain ⟨hfresh, rfl⟩ := ht
      refine h.of_frame rfl rfl fun j => ?_
      by_cases hj : j = i
      · subst hj
        simp [hfresh]
      · simp [hj]
  | register i =>
      simp only [step, Option.ite_none_right_eq_some, Option.some.injEq] at ht
      obtain ⟨⟨hallocated, -⟩, rfl⟩ := ht
      refine h.of_frame rfl rfl fun j => ?_
      by_cases hj : j = i
      · subst hj
        simp [hallocated]
      · simp [hj]
  | log i a => exact exitInv_log h ht
  | exit i => exact exitInv_exit h hG ht
  | poll => exact exitInv_poll hinv h ht
  | sink a =>
      simp only [step, Option.map_eq_some_iff] at ht
      obtain ⟨k, -, rfl⟩ := ht
      exact h.of_frame rfl rfl fun _ => Iff.rfl
  | destroy =>
      simp only [step, destroyStep] at ht
      split at ht
      · cases ht
        exact h.of_frame rfl rfl fun _ => Iff.rfl
      · split_ifs at ht
        cases ht
        exact h.of_frame rfl rfl fun _ => Iff.rfl
      · cases ht
        split_ifs <;> exact h.of_frame rfl rfl fun _ => Iff.rfl
      · split_ifs at ht
        cases ht
        exact h.of_frame rfl rfl fun _ => Iff.rfl
      · cases ht

lemma exitInv_new : new.ExitInv where
  exited := by simp [new, Channel.new, StagingBuffer.new]
  inPeek := by simp [new]
  nothing := by simp [new]
  delete := by simp [new]

/-- The poll thread alone takes a step. -/
def pollAlone : Pipeline → PipelineAct → Prop := fun _ a => a = .poll

/-- At the test of `checkCanDelete` the buffer of a thread that has ended is deleted. -/
lemma checkDelete_deletes (names : ℕ → ThreadName) {j i : ℕ} (hpc : s.poll = .checkDelete j i)
    (hflag : (s.chans i).buf.shouldDeallocate = true) :
    ∃ u, (machine names).Reaches pollAlone s u ∧ u.poll = .delete j i ∧ u.chans = s.chans := by
  refine ⟨{ s with poll := .delete j i }, .single (a := .poll) rfl ?_, rfl, rfl⟩
  simp [machine, step, pollStep, hpc, StagingBuffer.checkCanDelete, hflag]

/-- So it is from anywhere in a `peek` that finds nothing. -/
lemma peek_deletes (hinv : s.Inv names) {j i : ℕ} (hpc : s.poll = .peeking j i)
    (hnothing : (s.chans i).peeksNothing) (hflag : (s.chans i).buf.shouldDeallocate = true) :
    ∃ u, (machine names).Reaches pollAlone s u ∧ u.poll = .delete j i ∧
      (u.chans i).consumed = (s.chans i).consumed ∧
      (u.chans i).finishedBytes = (s.chans i).finishedBytes := by
  induction hn : Channel.peekLeft (s.chans i).cons using Nat.strong_induction_on
    generalizing s with
  | _ n ih =>
      rcases Channel.peeksNothing_step (hinv.chan i) hnothing with ⟨pos, hcons⟩ |
        ⟨hidle, c, hc, hnothing', hlt, hconsumed⟩
      · have hst : (machine names).step s .poll = some { s with poll := .checkDelete j i } := by
          simp [machine, step, pollStep, hpc, hcons]
        obtain ⟨u, hreach, hu, hchans⟩ := checkDelete_deletes names
          (s := { s with poll := .checkDelete j i }) rfl hflag
        refine ⟨u, (Machine.Reaches.single (G := pollAlone) rfl hst).trans hreach, hu, ?_, ?_⟩ <;>
          rw [hchans]
      · have hst : (machine names).step s .poll = some (s.setChan i c) := by
          simp only [machine, step, pollStep, hpc]
          rw [hc, Option.map_some]
        obtain ⟨-, hfin, -, hflag', -⟩ := Channel.consumerStep_frame hc
        have hat : (s.setChan i c).chans i = c := by rw [setChan_chans, if_pos rfl]
        have hinv' := step_inv (a := .poll) hinv hst
        obtain ⟨u, hreach, hu, hcons, hbytes⟩ := ih (Channel.peekLeft c.cons) (by omega)
          hinv' hpc (by rwa [hat]) (by rw [hat, hflag', hflag]) (by rw [hat])
        refine ⟨u, (Machine.Reaches.single (G := pollAlone) rfl hst).trans hreach, hu, ?_, ?_⟩
        · rw [hcons, hat, hconsumed]
        · rw [hbytes, hat, Channel.finishedBytes, hfin, Channel.finishedBytes]

/-- **Deleting a staging buffer.** In a run in which no thread ends with something left in its
buffer while `poll_` takes the buffer for empty, `poll_` deletes a buffer only when every byte
published to it is consumed. A thread that does end so loses it: the poll thread alone goes on
to delete the buffer with the bytes in it. -/
theorem delete_consumed (names : ℕ → ThreadName) :
    (∀ s, (machine names).Reaches exitsSeen new s → ∀ j i, s.poll = .delete j i →
        (s.chans i).consumed = (s.chans i).finishedBytes) ∧
      ∀ s t i, (machine names).Reachable s → ¬ s.exitsSeen (.exit i) →
        s.step names (.exit i) = some t →
        ∃ u j, (machine names).Reaches pollAlone t u ∧ u.poll = .delete j i ∧
          (u.chans i).consumed ≠ (u.chans i).finishedBytes := by
  refine ⟨fun s h j i hpc => ?_, fun s t i h hG ht => ?_⟩
  · have hinv : s.Inv names ∧ s.ExitInv :=
      Machine.Reaches.invariant (I := fun s => s.Inv names ∧ s.ExitInv) h
        ⟨inv_new names, exitInv_new⟩ fun hI hG hst =>
          ⟨step_inv hI.1 hst, step_exitInv hI.1 hI.2 hG hst⟩
    exact (hinv.2.delete j i hpc).2
  · have hinv := step_inv (reachable_inv h) ht
    obtain ⟨-, -, hpoll, hflag, -, hsame⟩ := exitStep_frame ht
    obtain ⟨hconsumed, hbytes, -, hnothing⟩ := hsame i
    simp only [exitsSeen, not_forall] at hG
    obtain ⟨k, hk, hfound, hleft⟩ := hG
    cases hk
    rw [← hconsumed, ← hbytes] at hleft
    rw [foundNothing, ← hpoll] at hfound
    cases hpc : t.poll <;> simp only [hpc] at hfound
    case peeking j sb =>
      obtain ⟨rfl, hn⟩ := hfound
      obtain ⟨u, hreach, hu, hcons, hbytes'⟩ := peek_deletes hinv hpc (hnothing.mpr hn) hflag
      exact ⟨u, j, hreach, hu, by rwa [hcons, hbytes']⟩
    case checkDelete j sb =>
      subst hfound
      obtain ⟨u, hreach, hu, hchans⟩ := checkDelete_deletes names hpc hflag
      exact ⟨u, j, hreach, hu, by rwa [hchans]⟩

/-- `poll_` finds the buffer of the thread `0` empty, the thread publishes an entry and ends,
and `poll_` goes on. -/
def lossySample : List PipelineAct :=
  [.allocate 0, .register 0, .poll, .poll, .poll, .poll, .log 0 (.reserve 24 true),
    .log 0 (.fill 8 24), .log 0 (.finish 24), .log 0 .advance, .exit 0, .poll, .poll]

theorem delete_consumed_lossySample : ¬ ∀ s, (machine sampleNames).Reachable s →
    ∀ j i, s.poll = .delete j i → (s.chans i).consumed = (s.chans i).finishedBytes := by
  intro hall
  have hconsumed := hall _ (Machine.reachable_of_exec
    (show (machine sampleNames).exec new lossySample = some _ from rfl)) 0 0 rfl
  exact absurd (congrArg List.length hconsumed) (by decide)

/-- The entry of the thread `0` is appended, the thread ends and its buffer is deleted. -/
theorem delete_consumed_publishSample : ∃ s, (machine sampleNames).exec new
      (publishSample ++ List.replicate 11 .poll ++ .exit 0 :: List.replicate 6 .poll) = some s ∧
    s.poll = .delete 0 0 ∧ (s.chans 0).consumed = (s.chans 0).finishedBytes := by
  have hother : ∀ a ∈ publishSample ++ List.replicate 11 .poll, ∀ t, exitsSeen t a := by
    intro a ha t i hi
    subst hi
    simp [publishSample, logSample] at ha
  have hpoll : ∀ a ∈ List.replicate 6 PipelineAct.poll, ∀ t, exitsSeen t a := by
    intro a ha t i hi
    subst hi
    simp at ha
  have hreach := Machine.reaches_of_exec hother
    (show (machine sampleNames).exec new _ = some _ from rfl)
  have hexit := hreach.tail (a := .exit 0) (fun i _ hfound => hfound.elim)
    (show (machine sampleNames).step _ _ = some _ from rfl)
  have hdelete := hexit.trans (Machine.reaches_of_exec hpoll
    (show (machine sampleNames).exec _ _ = some _ from rfl))
  exact ⟨_, rfl, rfl, (delete_consumed sampleNames).1 _ hdelete 0 0 rfl⟩

/-! ### The end of the runtime logger -/

/-- The entries the thread `i` had published when `~RuntimeLogger` began. -/
def before (s : Pipeline) (i : ℕ) : List (List UInt8) :=
  (s.publishedBy i).take (s.atDestruction i)

/-- The bytes from the staging buffer `i` in `buffers_` and `currentBuffer_`. -/
def queued (s : Pipeline) (i : ℕ) : List UInt8 :=
  (s.sink.queuedBlocks.filter fun blk => blk.src = i).flatMap Block.bytes

/-- `poll_` ends with no byte in a staging buffer that was published before the destructor
began, and `threadFunc` with none in `buffers_` and `currentBuffer_`. -/
def exitsDrained (s : Pipeline) (a : PipelineAct) : Prop :=
  (a = .poll → s.poll = .loopHead → s.bgThreadShouldExit = true →
      ∀ i, (s.before i).flatten.length ≤ (s.chans i).consumed.length) ∧
    (a = .sink .advance → s.sink.pc = .loopHead → s.sink.running = false →
      ∀ i, (s.queued i).length ≤ (s.logged i).length - (s.before i).flatten.length)

/-- How far the destructor has come, and what the ended threads have done by then. -/
structure ShutdownInv (s : Pipeline) : Prop where
  shouldExit : s.bgThreadShouldExit = true → s.destructor ≠ .alive
  marked : s.destructor ≠ .alive → ∀ i, s.atDestruction i ≤ (s.chans i).finished.length
  pollExited : s.poll = .exited → s.destructor ≠ .alive ∧
    ∀ i, (s.before i).flatten.length ≤ (s.logged i).length
  pollJoined : s.destructor = .stopSink ∨ s.destructor = .joinSink ∨ s.destructor = .done →
    s.poll = .exited
  stopped : s.sink.running = false → s.destructor = .joinSink ∨ s.destructor = .done
  sinkExited : s.sink.pc = .exited → s.sink.running = false ∧ ∀ i, s.before i <+: s.formattedFrom i
  sinkJoined : s.destructor = .done → s.sink.pc = .exited

/-- Publishing more does not change what was published before. -/
lemma before_congr {i : ℕ} (hmark : t.atDestruction = s.atDestruction)
    (hfin : (s.chans i).finished <+: (t.chans i).finished)
    (hle : s.atDestruction i ≤ (s.chans i).finished.length) : t.before i = s.before i := by
  obtain ⟨more, hmore⟩ := hfin
  rw [before, before, hmark, publishedBy, publishedBy, ← hmore, List.map_append,
    List.take_append_of_le_length (by rw [List.length_map]; exact hle)]

/-- A step in which the destructor stays where it is, and a loop that ends leaves nothing. -/
lemma ShutdownInv.of_frame (h : s.ShutdownInv) (hmark : t.atDestruction = s.atDestruction)
    (hdestructor : t.destructor = s.destructor)
    (hexit : t.bgThreadShouldExit = s.bgThreadShouldExit)
    (hrunning : t.sink.running = s.sink.running)
    (hfin : ∀ i, (s.chans i).finished <+: (t.chans i).finished)
    (hlogged : ∀ i, s.logged i <+: t.logged i)
    (hformatted : ∀ i, s.formattedFrom i <+: t.formattedFrom i)
    (hpoll : s.poll = .exited → t.poll = .exited)
    (hpoll' : t.poll = .exited → s.poll = .exited ∨ s.destructor ≠ .alive ∧
      ∀ i, (s.before i).flatten.length ≤ (s.logged i).length)
    (hpc : s.sink.pc = .exited → t.sink.pc = .exited)
    (hpc' : t.sink.pc = .exited → s.sink.pc = .exited ∨ s.sink.running = false ∧
      ∀ i, s.before i <+: s.formattedFrom i) : t.ShutdownInv := by
  have hbefore (hbegun : s.destructor ≠ .alive) (i : ℕ) : t.before i = s.before i :=
    before_congr hmark (hfin i) (h.marked hbegun i)
  refine ⟨?_, fun hbegun i => ?_, fun hexited => ?_, ?_, ?_, fun hexited => ?_, ?_⟩
  · rw [hexit, hdestructor]
    exact h.shouldExit
  · rw [hdestructor] at hbegun
    rw [hmark]
    exact (h.marked hbegun i).trans (hfin i).length_le
  · obtain ⟨hbegun, hle⟩ := (hpoll' hexited).elim h.pollExited id
    rw [hdestructor]
    refine ⟨hbegun, fun i => ?_⟩
    rw [hbefore hbegun]
    exact (hle i).trans (hlogged i).length_le
  · rw [hdestructor]
    exact fun hd => hpoll (h.pollJoined hd)
  · rw [hrunning, hdestructor]
    exact h.stopped
  · obtain ⟨hstopped, hpre⟩ := (hpc' hexited).elim h.sinkExited id
    rw [hrunning]
    refine ⟨hstopped, fun i => ?_⟩
    have hbegun : s.destructor ≠ .alive := by
      rcases h.stopped hstopped with hd | hd <;> rw [hd] <;> simp
    rw [hbefore hbegun]
    exact (hpre i).trans (hformatted i)
  · rw [hdestructor]
    exact fun hd => hpc (h.sinkJoined hd)

/-- The entries of blocks of whole entries are their bytes. -/
lemma flatten_entries {log : List Block} (h : ∀ blk ∈ log, blk.WholeEntries) :
    (log.flatMap Block.entries).flatten = log.flatMap Block.bytes := by
  induction log with
  | nil => rfl
  | cons blk log ih =>
      rw [List.flatMap_cons, List.flatten_append, ih fun b hb => h b (List.mem_cons_of_mem _ hb),
        (h blk List.mem_cons_self).entries_spec.2, List.flatMap_cons]

/-- At the head of its loop the sink thread has formatted all that was appended but for what is
queued. -/
lemma Inv.formatted_length (h : s.Inv names) (hpc : s.sink.pc = .loopHead) (i : ℕ) :
    (s.formattedFrom i).flatten.length + (s.queued i).length = (s.logged i).length := by
  have hwhole : ∀ blk ∈ s.sink.appended, blk.WholeEntries := fun blk hblk => (h.named blk hblk).2
  obtain ⟨hpool, hstore⟩ := Sink.reachable_storeInv h.sink
  have hqueued : ∀ blk ∈ s.sink.queuedBlocks, blk.WholeEntries := by
    intro blk hblk
    simp only [Sink.queuedBlocks, List.mem_append, List.mem_flatMap] at hblk
    rcases hblk with ⟨b, hb, hblk⟩ | ⟨b, hb, hblk⟩
    · exact hwhole blk ((hstore.queued b hb).logged hblk)
    · refine hwhole blk ((Sink.held_stored hpool hstore ?_).1 hblk)
      simp [Sink.held, Option.mem_toList.mp hb]
  have hbal := Sink.reachable_parseInv h.sink hwhole
  rw [hpc] at hbal
  change s.sink.formatted ++ s.sink.queuedBlocks.flatMap Block.lines =
    s.sink.appended.flatMap Block.lines at hbal
  have hentries := congrArg (fun ls => (ls.filter fun l => decide (l.src = some i)).map
    LogLine.entry) hbal
  rw [List.filter_append, List.map_append, Sink.lines_filter, Sink.lines_filter] at hentries
  have hbytes := congrArg (fun es => es.flatten.length) hentries
  rw [List.flatten_append, List.length_append,
    flatten_entries fun blk hblk => hqueued blk (List.mem_of_mem_filter hblk),
    flatten_entries fun blk hblk => hwhole blk (List.mem_of_mem_filter hblk)] at hbytes
  exact hbytes

/-- Of two prefixes of a list of entries, the one with no more bytes comes first. -/
lemma prefix_of_length {es xs : List (List UInt8)} (hne : ∀ e ∈ es, e ≠ []) (n : ℕ)
    (hxs : xs <+: es) (hlen : (es.take n).flatten.length ≤ xs.flatten.length) :
    es.take n <+: xs := by
  rcases List.prefix_or_prefix_of_prefix (List.take_prefix n es) hxs with hpre | hpre
  · exact hpre
  · obtain ⟨ys, hys⟩ := hpre
    cases ys with
    | nil =>
        rw [← hys, List.append_nil]
    | cons e ys =>
        have hmem : e ∈ es := List.mem_of_mem_take (show e ∈ es.take n by rw [← hys]; simp)
        have hpos := List.length_pos_iff.mpr (hne e hmem)
        rw [← hys, List.flatten_append, List.flatten_cons, List.length_append,
          List.length_append] at hlen
        omega

/-- The end of `threadFunc`. -/
lemma Inv.before_formatted (h : s.Inv names) (hpc : s.sink.pc = .loopHead) (i : ℕ)
    (hle : (s.before i).flatten.length ≤ (s.logged i).length)
    (hqueued : (s.queued i).length ≤ (s.logged i).length - (s.before i).flatten.length) :
    s.before i <+: s.formattedFrom i := by
  have hlen := h.formatted_length hpc i
  refine prefix_of_length (fun e he => ?_) _ (h.formattedFrom_prefix i) (by
    rw [before] at hle hqueued
    omega)
  obtain ⟨r, hr, rfl⟩ := List.mem_map.mp he
  exact (h.entries i r hr).isRecord.ne_nil

/-- A step of `poll_`. -/
lemma shutdownInv_poll (hinv : s.Inv names) (h : s.ShutdownInv) (hG : s.exitsDrained .poll)
    (ht : s.pollStep names = some t) : t.ShutdownInv := by
  obtain ⟨⟨-, hdestructor, hexit, hmark⟩, hsink, hchans, hnot, hend⟩ := pollStep_frame ht
  have hfin (i : ℕ) : (s.chans i).finished <+: (t.chans i).finished := by
    rcases hchans i with hc | ⟨a, hc⟩
    · rw [hc]
    · rw [(Channel.consumerStep_frame hc).2.1]
  have hlogged (i : ℕ) : s.logged i <+: t.logged i := by
    rcases pollStep_appended hinv ht with happended | ⟨blk, b, happended, -⟩
    · rw [logged_congr happended]
    · rw [logged_append happended]
      exact List.prefix_append _ _
  obtain ⟨hrunning, hpc, hformatted⟩ : t.sink.running = s.sink.running ∧
      t.sink.pc = s.sink.pc ∧ t.sink.formatted = s.sink.formatted := by
    rcases hsink with hsink | ⟨a, hk⟩
    · rw [hsink]
      exact ⟨rfl, rfl, rfl⟩
    · obtain ⟨hpool, hstore⟩ := Sink.reachable_storeInv hinv.sink
      obtain ⟨-, -, -, hformatted, -⟩ := Sink.appenderStep_queuedBlocks hpool hstore hk
      exact ⟨(Sink.appenderStep_frame hk).2, (Sink.appenderStep_frame hk).1, hformatted⟩
  have hformatted' (i : ℕ) : s.formattedFrom i <+: t.formattedFrom i := by
    rw [formattedFrom, formattedFrom, hformatted]
  refine h.of_frame hmark hdestructor hexit hrunning hfin hlogged hformatted'
    (fun hexited => absurd hexited hnot) (fun hexited => .inr ?_) (by rw [hpc]; exact id)
    (by rw [hpc]; exact .inl)
  obtain ⟨hhead, hshould⟩ := hend hexited
  refine ⟨h.shouldExit hshould, fun i => (hG.1 rfl hhead hshould i).trans ?_⟩
  have hpoll := hinv.poll
  rw [hhead] at hpoll
  have htaken := congrArg List.length (hinv.taken i)
  rw [show s.sink.app = .outside from hpoll, inFlight_outside, List.append_nil, Channel.taken,
    List.length_take, min_eq_left (hinv.chan i).taken_le] at htaken
  omega

/-- A step of the sink thread. -/
lemma shutdownInv_sink (hinv : s.Inv names) (h : s.ShutdownInv) {a : SinkThreadAct}
    (hG : s.exitsDrained (.sink a)) {k : Sink} (hk : s.sink.threadStep a = some k) :
    ShutdownInv { s with sink := k } := by
  obtain ⟨-, happended, -, -, hrunning, hpre⟩ := Sink.threadStep_frame hk
  have hlogged (i : ℕ) : logged { s with sink := k } i = s.logged i :=
    logged_congr (s := s) (t := { s with sink := k }) happended i
  have hformatted (i : ℕ) : s.formattedFrom i <+: formattedFrom { s with sink := k } i :=
    (hpre.filter _).map _
  refine h.of_frame rfl rfl rfl hrunning (fun _ => List.prefix_rfl)
    (fun i => by rw [hlogged]) hformatted id .inl (fun hexited => ?_)
    (fun hexited => .inr ?_)
  · cases a <;> simp [Sink.threadStep, hexited] at hk
  · obtain ⟨rfl, hpc, hstopped⟩ := (Sink.threadStep_pc hk).2.2 hexited
    refine ⟨hstopped, fun i => hinv.before_formatted hpc i ?_ (hG.2 rfl hpc hstopped i)⟩
    have hjoined := h.pollJoined (.inr (h.stopped hstopped))
    exact (h.pollExited hjoined).2 i

/-- A step of the destructor. -/
lemma shutdownInv_destroy (h : s.ShutdownInv) (ht : s.destroyStep = some t) : t.ShutdownInv := by
  have hrunning (hd : s.destructor ≠ .joinSink ∧ s.destructor ≠ .done) : s.sink.running = true := by
    by_contra hstopped
    exact (h.stopped (Bool.eq_false_iff.mpr hstopped)).elim hd.1 hd.2
  have hpc (hd : s.destructor ≠ .joinSink ∧ s.destructor ≠ .done) : s.sink.pc ≠ .exited := by
    intro hexited
    rw [(h.sinkExited hexited).1] at hrunning
    exact absurd (hrunning hd) (by simp)
  cases hd : s.destructor with
  | alive =>
      simp only [destroyStep, hd, Option.some.injEq] at ht
      subst ht
      rw [hd] at hrunning hpc
      refine ⟨fun _ => by simp, fun _ i => le_rfl, fun hexited => ?_, fun hd' => by simp at hd',
        fun hstopped => ?_, fun hexited => absurd hexited (hpc (by simp)),
        fun hd' => by simp at hd'⟩
      · exact absurd hd (h.pollExited hexited).1
      · exact absurd hstopped (by simp [hrunning])
  | joinPoll =>
      simp only [destroyStep, hd, Option.ite_none_right_eq_some, Option.some.injEq] at ht
      obtain ⟨hexited, rfl⟩ := ht
      rw [hd] at hrunning hpc
      refine ⟨fun _ => by simp, fun _ => h.marked (by simp [hd]),
        fun _ => ⟨by simp, (h.pollExited hexited).2⟩, fun _ => hexited, fun hstopped => ?_,
        fun hexited => absurd hexited (hpc (by simp)), fun hd' => by simp at hd'⟩
      exact absurd hstopped (by simp [hrunning])
  | stopSink =>
      simp only [destroyStep, hd, Option.some.injEq] at ht
      rw [hd] at hrunning hpc
      rw [if_pos (hrunning (by simp))] at ht
      subst ht
      have hexited := h.pollJoined (.inl hd)
      exact ⟨fun _ => by simp, fun _ => h.marked (by simp [hd]),
        fun _ => ⟨by simp, (h.pollExited hexited).2⟩, fun _ => hexited, fun _ => .inl rfl,
        fun hexited => absurd hexited (hpc (by simp)), fun hd' => by simp at hd'⟩
  | joinSink =>
      simp only [destroyStep, hd, Option.ite_none_right_eq_some, Option.some.injEq] at ht
      obtain ⟨hexited, rfl⟩ := ht
      have hjoined := h.pollJoined (.inr (.inl hd))
      exact ⟨fun _ => by simp, fun _ => h.marked (by simp [hd]),
        fun _ => ⟨by simp, (h.pollExited hjoined).2⟩, fun _ => hjoined, fun _ => .inr rfl,
        fun _ => h.sinkExited hexited, fun _ => hexited⟩
  | done => simp [destroyStep, hd] at ht

/-- A step in which no loop ends with anything left. -/
lemma step_shutdownInv (hinv : s.Inv names) (h : s.ShutdownInv) {a : PipelineAct}
    (hG : s.exitsDrained a) (ht : s.step names a = some t) : t.ShutdownInv := by
  have hsame {t : Pipeline} (hmark : t.atDestruction = s.atDestruction)
      (hdestructor : t.destructor = s.destructor)
      (hexit : t.bgThreadShouldExit = s.bgThreadShouldExit) (hsink : t.sink = s.sink)
      (hpoll : t.poll = s.poll)
      (hfin : ∀ i, (s.chans i).finished <+: (t.chans i).finished) : t.ShutdownInv :=
    h.of_frame hmark hdestructor hexit (by rw [hsink]) hfin
      (fun i => by rw [logged_congr (by rw [hsink])])
      (fun i => by rw [formattedFrom, formattedFrom, hsink]) (by rw [hpoll]; exact id)
      (by rw [hpoll]; exact .inl) (by rw [hsink]; exact id) (by rw [hsink]; exact .inl)
  cases a with
  | allocate i =>
      simp only [step, Option.ite_none_right_eq_some, Option.some.injEq] at ht
      obtain ⟨-, rfl⟩ := ht
      exact hsame rfl rfl rfl rfl rfl fun _ => List.prefix_rfl
  | register i =>
      simp only [step, Option.ite_none_right_eq_some, Option.some.injEq] at ht
      obtain ⟨-, rfl⟩ := ht
      exact hsame rfl rfl rfl rfl rfl fun _ => List.prefix_rfl
  | log i a =>
      simp only [step, logStep, Option.ite_none_right_eq_some, Option.map_eq_some_iff] at ht
      obtain ⟨-, c, hc, rfl⟩ := ht
      obtain ⟨-, -, -, hfin⟩ := Channel.producerStep_frame hc
      refine hsame rfl rfl rfl rfl rfl fun j => ?_
      rw [setChan_chans]
      split_ifs with hj
      · rw [hj]
        rcases hfin with hfin | ⟨cur, m, -, hfin⟩ <;> rw [hfin]
        exact List.prefix_append _ _
      · exact List.prefix_rfl
  | exit i =>
      simp only [step, exitStep] at ht
      split at ht <;> cases ht <;> refine hsame rfl rfl rfl rfl rfl fun j => ?_ <;>
        rw [setChan_chans] <;> split_ifs with hj <;> simp [hj]
  | poll => exact shutdownInv_poll hinv h hG ht
  | sink a =>
      simp only [step, Option.map_eq_some_iff] at ht
      obtain ⟨k, hk, rfl⟩ := ht
      exact shutdownInv_sink hinv h hG hk
  | destroy => exact shutdownInv_destroy h ht

lemma shutdownInv_new : new.ShutdownInv where
  shouldExit := by simp [new]
  marked := by simp [new]
  pollExited := by simp [new]
  pollJoined := by simp [new]
  stopped := by simp [new, Sink.new]
  sinkExited := by simp [new, Sink.new]
  sinkJoined := by simp [new]

/-- **The end of the runtime logger.** In a run in which neither loop ends with anything left
that was published before the destructor began, all of that is formatted when the destructor has
finished. -/
theorem shutdown_formatted (h : (machine names).Reaches exitsDrained new s)
    (hdone : s.destructor = .done) (i : ℕ) : s.before i <+: s.formattedFrom i := by
  have hinv : s.Inv names ∧ s.ShutdownInv :=
    Machine.Reaches.invariant (I := fun s => s.Inv names ∧ s.ShutdownInv) h
      ⟨inv_new names, shutdownInv_new⟩ fun hI hG hst =>
        ⟨step_inv hI.1 hst, step_shutdownInv hI.1 hI.2 hG hst⟩
  exact (hinv.2.sinkExited (hinv.2.sinkJoined hdone)).2 i

/-- The logger is destroyed with the entry of the thread `0` in its staging buffer. -/
def undrainedSample : List PipelineAct :=
  publishSample ++ [.destroy, .poll, .destroy, .sink .advance, .destroy, .sink .advance, .destroy]

theorem shutdown_formatted_undrainedSample : ¬ ∀ s, (machine sampleNames).Reachable s →
    s.destructor = .done → ∀ i, s.before i <+: s.formattedFrom i := by
  intro hall
  have hformatted := hall _ (Machine.reachable_of_exec
    (show (machine sampleNames).exec new undrainedSample = some _ from rfl)) rfl 0
  exact absurd hformatted.length_le (by decide)

/-- Only the destructor tells the loops to end. -/
lemma step_flags {a : PipelineAct} (ha : a ≠ .destroy) (ht : s.step names a = some t) :
    t.bgThreadShouldExit = s.bgThreadShouldExit ∧ t.sink.running = s.sink.running := by
  cases a with
  | poll =>
      obtain ⟨⟨-, -, hexit, -⟩, hsink, -⟩ := pollStep_frame ht
      refine ⟨hexit, ?_⟩
      rcases hsink with hsink | ⟨a, hk⟩
      · rw [hsink]
      · exact (Sink.appenderStep_frame hk).2
  | sink a =>
      simp only [step, Option.map_eq_some_iff] at ht
      obtain ⟨k, hk, rfl⟩ := ht
      exact ⟨rfl, (Sink.threadStep_frame hk).2.2.2.2.1⟩
  | log i a =>
      simp only [step, logStep, Option.ite_none_right_eq_some, Option.map_eq_some_iff] at ht
      obtain ⟨-, c, -, rfl⟩ := ht
      exact ⟨rfl, rfl⟩
  | exit i =>
      simp only [step, exitStep] at ht
      split at ht <;> cases ht <;> exact ⟨rfl, rfl⟩
  | allocate i =>
      simp only [step, Option.ite_none_right_eq_some, Option.some.injEq] at ht
      obtain ⟨-, rfl⟩ := ht
      exact ⟨rfl, rfl⟩
  | register i =>
      simp only [step, Option.ite_none_right_eq_some, Option.some.injEq] at ht
      obtain ⟨-, rfl⟩ := ht
      exact ⟨rfl, rfl⟩
  | destroy => exact absurd rfl ha

/-- Before the destructor begins no loop ends. -/
lemma reaches_exitsDrained (h : (machine names).Reaches (fun _ a => a ≠ .destroy) new s) :
    (machine names).Reaches exitsDrained new s ∧ s.bgThreadShouldExit = false ∧
      s.sink.running = true := by
  induction h with
  | refl => exact ⟨.refl, rfl, rfl⟩
  | tail _ ha hst ih =>
      obtain ⟨hreach, hexit, hrunning⟩ := ih
      obtain ⟨hexit', hrunning'⟩ := step_flags ha hst
      refine ⟨hreach.tail ⟨fun _ _ h => ?_, fun _ _ h => ?_⟩ hst, hexit'.trans hexit,
        hrunning'.trans hrunning⟩
      · rw [hexit] at h
        cases h
      · rw [hrunning] at h
        cases h

/-- The entry of the thread `0` is formatted, and the logger is destroyed. -/
def drainedSample : List PipelineAct :=
  publishSample ++ List.replicate 11 .poll ++
    [.sink .advance, .sink .advance, .sink .advance, .sink (.wake true)] ++
    List.replicate 11 (.sink .advance)

theorem shutdown_formatted_drainedSample : ∃ s, (machine sampleNames).exec new
      (drainedSample ++ [.destroy, .poll, .destroy, .destroy, .sink .advance, .destroy]) = some s ∧
    s.destructor = .done ∧ s.before 0 = [Sink.sampleEntry] ∧ s.before 0 <+: s.formattedFrom 0 := by
  have hother : ∀ a ∈ drainedSample, ∀ _ : Pipeline, a ≠ .destroy := by
    rintro _ ha _ rfl
    simp [drainedSample, publishSample, logSample] at ha
  have hformatted := (reaches_exitsDrained (Machine.reaches_of_exec hother
    (show (machine sampleNames).exec new drainedSample = some _ from rfl))).1
  have hbegun := hformatted.tail (a := .destroy) ⟨by simp, by simp⟩
    (show (machine sampleNames).step _ _ = some _ from rfl)
  have hpolled := hbegun.tail (a := .poll)
    ⟨fun _ _ _ i => by cases i with | zero => decide | succ i => exact Nat.zero_le _, by simp⟩
    (show (machine sampleNames).step _ _ = some _ from rfl)
  have hjoined := hpolled.tail (a := .destroy) ⟨by simp, by simp⟩
    (show (machine sampleNames).step _ _ = some _ from rfl)
  have hstopped := hjoined.tail (a := .destroy) ⟨by simp, by simp⟩
    (show (machine sampleNames).step _ _ = some _ from rfl)
  have hended := hstopped.tail (a := .sink .advance)
    ⟨by simp, fun _ _ _ i => by cases i with | zero => decide | succ i => exact Nat.zero_le _⟩
    (show (machine sampleNames).step _ _ = some _ from rfl)
  have hdone := hended.tail (a := .destroy) ⟨by simp, by simp⟩
    (show (machine sampleNames).step _ _ = some _ from rfl)
  exact ⟨_, rfl, rfl, rfl, shutdown_formatted hdone rfl 0⟩

end Pipeline

end ConstexprFmtStr
