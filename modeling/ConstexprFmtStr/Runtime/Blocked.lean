import Mathlib.Tactic
import ConstexprFmtStr.Runtime.Drain

/-!
A log call that waits for space is served.

* `Channel.InReserve`: the producer is in a blocking `reserveProducerSpace`.
* `Channel.waits`: how far it is from its return once the consumer has caught up.
* `Pipeline.catchesUp`: the background threads bring a consumer to its producer, the roll-over of
  `peek` included.
* `Pipeline.reserve_served`: a call of `reserveAlloc` can return if and only if it asks for less
  than `STAGING_BUFFER_SIZE` bytes.
-/

namespace ConstexprFmtStr

open Slice Word

namespace Channel

attribute [local simp] producerStep consumerStep

variable {c c' : Channel}

/-- The producer is in `reserveProducerSpace(nbytes)`. -/
def InReserve (nbytes : ℕ) : ProducerPc → Prop
  | .loop n blocking _ | .storeEnd n blocking _ _ => n = nbytes ∧ blocking = true
  | .rollOver n blocking _ | .reload n blocking _ => n = nbytes ∧ blocking = true
  | _ => False

/-- How far a call is from its return: it rolls over at most once, and before that it may have
read a `_consumerPos` of `0`. -/
def waits : ProducerPc → ℕ
  | .loop _ _ cur => if cur = 0 then 1 else 5
  | .storeEnd _ _ _ cached => if cached = 0 then 6 else 4
  | .rollOver _ _ _ => 3
  | .reload _ _ _ => 2
  | _ => 0

/-- A blocking call returns from its loop only with space. -/
lemma loopTest_true (b : StagingBuffer) (nbytes cur : ℕ) :
    loopTest b nbytes true cur =
      if b.minFreeSpace ≤ nbytes then .loop nbytes true cur else .reserved cur nbytes := rfl

/-- **A step of a blocking call** brings it closer to its return, if at the head of its loop the
consumer has caught up with it. -/
lemma waits_step {nbytes : ℕ} (h : c.Inv) (hn : nbytes < stagingBufferSize)
    (hin : InReserve nbytes c.prod)
    (hcaught : ∀ n blocking cur, c.prod = .loop n blocking cur →
      c.buf.consumerPos = c.buf.producerPos) :
    ∃ c', c.producerStep .advance = some c' ∧ ((∃ pos, c'.prod = .reserved pos nbytes) ∨
      InReserve nbytes c'.prod ∧ waits c'.prod < waits c.prod) := by
  have hprod := h.producer
  have hS := stagingBufferSize_lt
  have hlt := h.positions.producer_lt
  cases hpc : c.prod with
  | loop n blocking cur =>
      rw [hpc] at hin hprod
      obtain ⟨rfl, rfl⟩ := hin
      obtain ⟨-, rfl⟩ := hprod
      have heq := hcaught _ _ _ hpc
      have hfree := u64Sub_of_le hlt.le hS
      by_cases hfits : n < stagingBufferSize - c.buf.producerPos
      · exact ⟨_, by simp [hpc, heq]; rfl, .inl ⟨c.buf.producerPos, by simp [hfree, hfits]⟩⟩
      · have hne : c.buf.producerPos ≠ 0 := by omega
        exact ⟨_, by simp [hpc, heq]; rfl, .inr (by simp [hfree, hfits, InReserve, waits, hne])⟩
  | storeEnd n blocking cur cached =>
      rw [hpc] at hin
      obtain ⟨rfl, rfl⟩ := hin
      by_cases hzero : cached = 0
      · refine ⟨_, by simp [hpc, hzero]; rfl, ?_⟩
        dsimp only
        rw [loopTest_true]
        split_ifs
        · exact .inr ⟨⟨rfl, rfl⟩, by simp only [waits, hzero, if_true]; split_ifs <;> omega⟩
        · exact .inl ⟨_, rfl⟩
      · refine ⟨_, by simp [hpc, hzero]; rfl, .inr ?_⟩
        exact ⟨⟨rfl, rfl⟩, by simp [waits, hzero]⟩
  | rollOver n blocking cached =>
      rw [hpc] at hin
      obtain ⟨rfl, rfl⟩ := hin
      refine ⟨_, by simp [hpc]; rfl, .inr ?_⟩
      exact ⟨⟨rfl, rfl⟩, by simp [waits]⟩
  | reload n blocking cached =>
      rw [hpc] at hin hprod
      obtain ⟨rfl, rfl⟩ := hin
      refine ⟨_, by simp [hpc]; rfl, ?_⟩
      dsimp only
      rw [loopTest_true]
      split_ifs
      · exact .inr ⟨⟨rfl, rfl⟩, by simp [waits, hprod.2]⟩
      · exact .inl ⟨_, rfl⟩
  | _ =>
      rw [hpc] at hin
      exact hin.elim

/-- With nothing owed the consumer is at the producer, or at the mark of a lap the producer has
left. -/
lemma Inv.owes_nothing (h : c.Inv) (howes : ¬Pipeline.Owes c) :
    c.buf.consumerPos = c.buf.producerPos ∨ c.buf.producerPos < c.buf.consumerPos ∧
      c.buf.endOfRecordedSpace = c.buf.consumerPos ∧ c.buf.producerPos = 0 := by
  have hlen := h.length_finishedBytes
  rw [Pipeline.Owes, not_not] at howes
  rw [← howes] at hlen
  have howed : c.buf.owed.length = 0 := by omega
  rcases le_or_gt c.buf.consumerPos c.buf.producerPos with hle | hlt
  · rw [StagingBuffer.owed, span_of_le hle, List.length_range'] at howed
    exact .inl (by omega)
  · have hwrapped := h.positions.wrapped hlt
    rw [StagingBuffer.owed, span_of_lt hlt, List.length_append, List.length_range',
      List.length_range'] at howed
    exact .inr ⟨hlt, by omega, by omega⟩

/-- A `peek` that will still load `_producerPos`, or roll the consumer over. -/
def mayRollOver : ConsumerPc → Prop
  | .loadProducer _ | .loadEnd _ _ | .rollOver _ => True
  | _ => False

/-- At the mark of the lap a `peek` rolls the consumer over. -/
lemma rollsOver_step (h : c.Inv) (hw : c.buf.producerPos < c.buf.consumerPos)
    (hend : c.buf.endOfRecordedSpace = c.buf.consumerPos) (hzero : c.buf.producerPos = 0)
    (hmay : mayRollOver c.cons) (ht : c.consumerStep .advance = some c') :
    c'.consumed = c.consumed ∧ (c'.buf.consumerPos = c'.buf.producerPos ∨ mayRollOver c'.cons) := by
  have hcons := h.consumer
  have hS := stagingBufferSize_lt
  have hlt := h.positions.consumer_lt
  cases hpc : c.cons with
  | loadProducer cur =>
      rw [hpc] at hcons
      obtain rfl : cur = c.buf.consumerPos := hcons
      simp only [consumerStep, hpc, hw, if_true, Option.some.injEq] at ht
      rw [← ht]
      exact ⟨rfl, .inr trivial⟩
  | loadEnd cur cached =>
      rw [hpc] at hcons
      obtain rfl : cur = c.buf.consumerPos := hcons.1
      have hnone : u64Sub c.buf.endOfRecordedSpace c.buf.consumerPos = 0 := by
        rw [hend, u64Sub_of_le le_rfl (by omega), Nat.sub_self]
      simp only [consumerStep, hpc, hnone, lt_irrefl, if_false, Option.some.injEq] at ht
      rw [← ht]
      exact ⟨rfl, .inr trivial⟩
  | rollOver cached =>
      simp only [consumerStep, hpc, Option.some.injEq] at ht
      rw [← ht]
      exact ⟨rfl, .inl hzero.symm⟩
  | _ =>
      rw [hpc] at hmay
      exact hmay.elim

end Channel

namespace Pipeline

variable {names : ℕ → ThreadName} {s t : Pipeline}

/-! ### The consumer catches up -/

/-- With nothing owed a `peek` brings the consumer to the producer. -/
lemma peeking_catchesUp (names : ℕ → ThreadName) (k i : ℕ) :
    (machine names).LeadsTo background
      (fun s => s.Live names ∧ s.poll = .peeking k i ∧ ¬Owes (s.chans i) ∧
        ((s.chans i).buf.consumerPos = (s.chans i).buf.producerPos ∨
          Channel.mayRollOver (s.chans i).cons))
      fun s => (s.chans i).buf.consumerPos = (s.chans i).buf.producerPos := by
  refine .of_measure (fun s => peekSteps (s.chans i).cons) ?_
  rintro s ⟨hlive, hpc, howes, hcase⟩
  have hinv := (reachable_inv hlive.reachable).chan i
  rcases hinv.owes_nothing howes with heq | ⟨hw, hend, hzero⟩
  · exact ⟨s, .refl, .inl heq⟩
  have hmay := hcase.resolve_left (by omega)
  obtain ⟨t, hst, -, ⟨pos, avail, hcons, -⟩ | ⟨ht, hlt, hc⟩⟩ := peeking_step hlive.running hpc
  · rw [hcons] at hmay
    exact hmay.elim
  · have hreach := background_of_poll hst
    obtain ⟨hlive', honward⟩ := background_frame hlive hreach
    obtain ⟨hconsumed, hnext⟩ := Channel.rollsOver_step hinv hw hend hzero hmay hc
    refine ⟨t, hreach, .inr ⟨⟨hlive', ht, ?_, hnext⟩, hlt⟩⟩
    rwa [Owes, hconsumed, Channel.finishedBytes, honward.finished_eq]

/-- **The consumer catches up**: the background threads bring it to the producer of a thread that
logs. -/
lemma catchesUp {i : ℕ} (h : s.Live names) (hi : s.threads i = .logging) :
    ∃ t, (machine names).Reaches background s t ∧
      (t.chans i).buf.consumerPos = (t.chans i).buf.producerPos := by
  obtain ⟨t, hst, hsettled⟩ := settles names i s h
  obtain ⟨hlive, honward⟩ := background_frame h hst
  obtain ⟨u, htu, k, hu, hki⟩ := poll_comesTo hlive (by rw [honward.threads_eq, hi])
  obtain ⟨hlive', honward'⟩ := background_frame hlive htu
  obtain ⟨v, huv, hv, -, hcons⟩ := scan_step hlive'.running hu hki
  obtain ⟨hlive'', honward''⟩ := background_frame hlive' huv
  have hnone : ¬Owes (v.chans i) :=
    hsettled.onward (honward'.trans honward'') ((reachable_inv hlive''.reachable).chan i)
      (by rw [honward''.threads_eq, honward'.threads_eq, honward.threads_eq, hi])
  obtain ⟨w, hvw, hw⟩ := peeking_catchesUp names k i v
    ⟨hlive'', hv, hnone, .inr (by rw [hcons]; trivial)⟩
  exact ⟨w, ((hst.trans htu).trans huv).trans hvw, hw⟩

/-! ### The call returns -/

/-- The background threads take a step, or the call of the thread `i` goes on. -/
def serving (i : ℕ) : Pipeline → PipelineAct → Prop :=
  fun s a => background s a ∨ a = .log i .advance

/-- One step of the call. -/
lemma serving_of_call {i : ℕ} {c : Channel} (hi : s.threads i = .logging)
    (hc : (s.chans i).producerStep .advance = some c) :
    (machine names).Reaches (serving i) s (s.setChan i c) := by
  refine .single (.inr rfl) (show (machine names).step s (.log i .advance) = _ from ?_)
  simp [machine, step, logStep, publishesEntry, hi, hc]

/-- **The call comes closer to its return.** -/
lemma reserve_leadsTo (names : ℕ → ThreadName) (i : ℕ) {nbytes : ℕ}
    (hn : nbytes < stagingBufferSize) :
    (machine names).LeadsTo (serving i)
      (fun s => s.Live names ∧ s.threads i = .logging ∧
        Channel.InReserve nbytes (s.chans i).prod)
      fun s => ∃ pos, (s.chans i).prod = .reserved pos nbytes := by
  refine .of_measure (fun s => Channel.waits (s.chans i).prod) ?_
  rintro s ⟨hlive, hi, hin⟩
  obtain ⟨t, hst, hcaught⟩ := catchesUp hlive hi
  obtain ⟨hlive', honward⟩ := background_frame hlive hst
  have hprod := (honward.producer_eq i).1
  obtain ⟨c, hc, hcase⟩ := Channel.waits_step ((reachable_inv hlive'.reachable).chan i) hn
    (by rwa [hprod]) fun _ _ _ _ => hcaught
  have hi' : t.threads i = .logging := by rw [honward.threads_eq, hi]
  have hcall := @serving_of_call names _ _ _ hi' hc
  have hreach := (hst.mono fun _ _ hG => Or.inl hG : (machine names).Reaches (serving i) s t)
  have hself : (t.setChan i c).chans i = c := by rw [setChan_chans, if_pos rfl]
  refine ⟨_, hreach.trans hcall, ?_⟩
  rw [hself]
  rcases hcase with hdone | ⟨hin', hlt⟩
  · exact .inl hdone
  · rw [hprod] at hlt
    exact .inr ⟨⟨⟨hlive'.reachable.reaches (hcall.mono fun _ _ _ => trivial), hlive'.alive⟩,
      hi', hin'⟩, hlt⟩

/-- **A log call that waits is served.** In every reachable state before the destructor begins in
which a thread is in `reserveProducerSpace(nbytes)`: with the help of the poll thread and of the
sink thread alone the call can return its space if and only if `nbytes` is less than
`STAGING_BUFFER_SIZE`. -/
theorem reserve_served (h : (machine names).Reachable s) (halive : s.destructor = .alive)
    {i nbytes : ℕ} (hi : s.threads i = .logging)
    (hin : Channel.InReserve nbytes (s.chans i).prod) :
    (∃ t pos, (machine names).Reaches (serving i) s t ∧
      (t.chans i).prod = .reserved pos nbytes) ↔ nbytes < stagingBufferSize := by
  constructor
  · rintro ⟨t, pos, hst, ht⟩
    have hinv := (reachable_inv (h.reaches (hst.mono fun _ _ _ => trivial))).chan i
    have hprod := hinv.producer
    rw [ht] at hprod
    obtain ⟨⟨hroom, -⟩, -, hlt⟩ := hprod
    omega
  · intro hn
    obtain ⟨t, hst, pos, ht⟩ := reserve_leadsTo names i hn s ⟨⟨h, halive⟩, hi, hin⟩
    exact ⟨t, pos, hst, ht⟩

/-- The thread `0` has published an entry and asks for all but one byte of its staging buffer. -/
def blockedSample : List PipelineAct := publishSample ++ [.log 0 (.reserve 1048575 true)]

theorem reserve_served_blockedSample : ∃ s t pos,
    (machine sampleNames).exec new blockedSample = some s ∧
      (s.chans 0).prod = .loop 1048575 true 24 ∧ (machine sampleNames).Reaches (serving 0) s t ∧
      (t.chans 0).prod = .reserved pos 1048575 := by
  have hrun : (machine sampleNames).exec new blockedSample = some _ := rfl
  obtain ⟨t, pos, hst, ht⟩ := (reserve_served (i := 0) (Machine.reachable_of_exec hrun) rfl rfl
    (show Channel.InReserve 1048575 _ from ⟨rfl, rfl⟩)).mpr (by norm_num [stagingBufferSize])
  exact ⟨_, t, pos, hrun, rfl, hst, ht⟩

end Pipeline

end ConstexprFmtStr
