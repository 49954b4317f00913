import Mathlib.Tactic
import ConstexprFmtStr.Runtime.StagingFifo

/-!
A reservation that fails is served after a few rounds of the consumer.

* `retry`: a non-blocking attempt followed by a round of the consumer, `peek` and then
  `consume` of all that was peeked.
* `phase`: how many attempts may still fail, read off the two positions. It drops with every
  attempt that fails (`phase_retry_lt`), and at phase `0` an attempt for less than
  `STAGING_BUFFER_SIZE` bytes succeeds (`reserve_isSome_of_phase`).
* `exec_reserveProducerSpace`: the call that runs without interference is a run of the producer
  alone.
-/

namespace ConstexprFmtStr

open Slice Word

namespace StagingBuffer

variable {b : StagingBuffer} {nbytes : ℕ}

/-- A round of the consumer: `peek`, then `consume` of everything peeked. -/
def consumerRound (b : StagingBuffer) : StagingBuffer := b.peek.1.consume b.peek.2.2

/-- A non-blocking attempt to reserve and the round of the consumer after it. -/
def retry (nbytes : ℕ) (b : StagingBuffer) : StagingBuffer :=
  (b.reserveProducerSpace nbytes).1.consumerRound

/-! ### What the two calls do to the positions -/

/-- A round brings the consumer to the mark, and from there around to the producer. -/
lemma consumerRound_wrapped (hb : b.Positions) (hw : b.producerPos < b.consumerPos) :
    b.consumerRound.producerPos = b.producerPos ∧
      b.consumerRound.endOfRecordedSpace = b.endOfRecordedSpace ∧
      b.consumerRound.consumerPos =
        if b.consumerPos < b.endOfRecordedSpace then b.endOfRecordedSpace
        else b.producerPos := by
  have hS := stagingBufferSize_lt
  have hlt := hb.producer_lt
  obtain ⟨hce, heS⟩ := hb.wrapped hw
  have havail := u64Sub_of_le hce (heS.trans hS)
  unfold consumerRound peek consume
  by_cases hmark : b.consumerPos < b.endOfRecordedSpace
  · simp only [hw, havail, hmark, if_true, tsub_pos_of_lt hmark, true_and]
    rw [u64Add_of_lt (by omega)]
    omega
  · simp only [hw, havail, hmark, if_true, if_false, show ¬0 < b.endOfRecordedSpace -
      b.consumerPos by omega, true_and]
    rw [u64Sub_of_le (Nat.zero_le _) (by omega), u64Add_of_lt (by omega)]
    omega

/-- On one lap a round brings the consumer to the producer. -/
lemma consumerRound_of_le (hb : b.Positions) (hle : b.consumerPos ≤ b.producerPos) :
    b.consumerRound.producerPos = b.producerPos ∧
      b.consumerRound.consumerPos = b.producerPos := by
  have hS := stagingBufferSize_lt
  have hlt := hb.producer_lt
  unfold consumerRound peek consume
  rw [if_neg (by omega)]
  refine ⟨rfl, ?_⟩
  dsimp only
  rw [u64Sub_of_le hle (by omega), u64Add_of_lt (by omega)]
  omega

/-- A failed attempt leaves the positions alone, but for one case: on one lap, with the
consumer away from `0`, it rolls the producer over. -/
lemma reserve_fails (hb : b.Positions) (hn : nbytes < stagingBufferSize)
    {b' : StagingBuffer} (hfail : b.reserveProducerSpace nbytes = (b', none)) :
    b'.consumerPos = b.consumerPos ∧
      (b.producerPos < b.consumerPos ∧ b'.producerPos = b.producerPos ∧
          b'.endOfRecordedSpace = b.endOfRecordedSpace ∨
        b.consumerPos = 0 ∧ 0 < b.producerPos ∧ b'.producerPos = b.producerPos ∨
        0 < b.consumerPos ∧ b.consumerPos ≤ b.producerPos ∧ b'.producerPos = 0 ∧
          b'.endOfRecordedSpace = b.producerPos) := by
  have hlt := hb.producer_lt
  have hsub := u64Sub_of_le hlt.le stagingBufferSize_lt
  unfold reserveProducerSpace at hfail
  dsimp only at hfail
  rw [hsub] at hfail
  split_ifs at hfail with hfast hle hend hc hroom hroom' hroom'' <;> cases hfail
  · exact ⟨rfl, .inr (.inr ⟨by omega, hle, rfl, rfl⟩)⟩
  · exact ⟨rfl, .inr (.inl ⟨by omega, by omega, rfl⟩)⟩
  · exact ⟨rfl, .inl ⟨by omega, rfl, rfl⟩⟩

/-! ### The phases of a reservation that fails -/

/-- How many attempts for less than `STAGING_BUFFER_SIZE` bytes may fail. -/
def phase (b : StagingBuffer) : ℕ :=
  if b.producerPos < b.consumerPos then
    if b.consumerPos < b.endOfRecordedSpace then 3 else if b.producerPos = 0 then 1 else 2
  else if b.producerPos = 0 then 0 else if b.consumerPos = b.producerPos then 1 else 2

lemma phase_le (b : StagingBuffer) : b.phase ≤ 3 := by
  unfold phase
  split_ifs <;> omega

/-- With both positions at `0` the whole storage is free. -/
lemma reserve_isSome_of_phase (hn : nbytes < stagingBufferSize) (h : b.phase = 0) :
    (b.reserveProducerSpace nbytes).2.isSome := by
  have hpos : b.producerPos = 0 ∧ b.consumerPos = 0 := by
    unfold phase at h
    split_ifs at h
    omega
  have hsub := u64Sub_of_le (Nat.zero_le stagingBufferSize) stagingBufferSize_lt
  unfold reserveProducerSpace
  dsimp only
  rw [hpos.1, hpos.2, hsub]
  split_ifs <;> first | rfl | omega

/-- **Every attempt that fails brings the next one closer to success.** -/
lemma phase_retry_lt (hb : b.Positions) (hn : nbytes < stagingBufferSize)
    (hfail : (b.reserveProducerSpace nbytes).2 = none) :
    (retry nbytes b).Positions ∧ (retry nbytes b).phase < b.phase := by
  have hlt := hb.producer_lt
  obtain ⟨b', hb'⟩ : ∃ b', b.reserveProducerSpace nbytes = (b', none) :=
    ⟨(b.reserveProducerSpace nbytes).1, Prod.ext rfl hfail⟩
  have hretry : retry nbytes b = b'.consumerRound := by rw [retry, hb']
  rw [hretry]
  obtain ⟨hc, hcases⟩ := reserve_fails hb hn hb'
  rcases hcases with ⟨hw, hp, he⟩ | ⟨hc0, hp0, hp⟩ | ⟨hc0, hle, hp, he⟩
  · -- the producer has rolled over: the consumer goes on to the mark, or around
    obtain ⟨hce, heS⟩ := hb.wrapped hw
    have hpos : b'.Positions := ⟨by omega, fun _ => by omega⟩
    obtain ⟨h1, h2, h3⟩ := consumerRound_wrapped hpos (by omega)
    refine ⟨⟨by omega, fun _ => ?_⟩, ?_⟩
    · split_ifs at h3 <;> omega
    · unfold phase
      split_ifs at h3 ⊢ <;> omega
  · -- no room at the end and the consumer at `0`: it catches up
    obtain ⟨h1, h2⟩ := consumerRound_of_le (b := b') ⟨by omega, fun _ => by omega⟩ (by omega)
    refine ⟨⟨by omega, fun _ => by omega⟩, ?_⟩
    unfold phase
    split_ifs <;> omega
  · -- the attempt has rolled the producer over
    have hpos : b'.Positions := ⟨by omega, fun _ => by omega⟩
    obtain ⟨h1, h2, h3⟩ := consumerRound_wrapped hpos (by omega)
    refine ⟨⟨by omega, fun _ => ?_⟩, ?_⟩
    · split_ifs at h3 <;> omega
    · unfold phase
      split_ifs at h3 ⊢ <;> omega

/-- At phase `k` one of the next `k + 1` attempts succeeds. -/
lemma exists_attempt (hn : nbytes < stagingBufferSize) :
    ∀ (k : ℕ) (b : StagingBuffer), b.Positions → b.phase ≤ k →
      ∃ i ≤ k, (((retry nbytes)^[i] b).reserveProducerSpace nbytes).2.isSome
  | 0, b, _, hk => ⟨0, le_rfl, reserve_isSome_of_phase hn (Nat.le_zero.mp hk)⟩
  | k + 1, b, hb, hk => by
      cases hres : (b.reserveProducerSpace nbytes).2 with
      | some pos => exact ⟨0, by omega, by simp [hres]⟩
      | none =>
          obtain ⟨hpos, hphase⟩ := phase_retry_lt hb hn hres
          obtain ⟨i, hi, hsome⟩ := exists_attempt hn k (retry nbytes b) hpos (by omega)
          exact ⟨i + 1, by omega, by rwa [Function.iterate_succ_apply]⟩

end StagingBuffer

namespace Channel

attribute [local simp] producerStep consumerStep

open StagingBuffer

/-! ### The calls as runs of one thread -/

/-- Where the producer stands after a call that does not block. -/
def afterReserve (nbytes : ℕ) : Option ℕ → ProducerPc
  | none => .idle
  | some pos => .reserved pos nbytes

/-- `reserveProducerSpace(nbytes, false)` is what the producer's steps do when nothing comes
between them. -/
theorem exec_reserveProducerSpace (s : Channel) (hpc : s.prod = .idle) (nbytes : ℕ) :
    ∃ k, machine.exec s (.inl (.reserve nbytes false) :: List.replicate k (.inl .advance)) =
      some { s with
        buf := (s.buf.reserveProducerSpace nbytes).1
        prod := afterReserve nbytes (s.buf.reserveProducerSpace nbytes).2 } := by
  unfold reserveProducerSpace
  dsimp only
  by_cases hfast : nbytes < s.buf.minFreeSpace
  · refine ⟨0, ?_⟩
    simp [Machine.exec, machine, step, producerStep, hpc, reserveEnter, hfast, afterReserve]
  by_cases hle : s.buf.consumerPos ≤ s.buf.producerPos
  · by_cases hend : nbytes < u64Sub stagingBufferSize s.buf.producerPos
    · refine ⟨1, ?_⟩
      simp [Machine.exec, machine, step, producerStep, hpc, reserveEnter, hfast, hle, hend,
        afterReserve]
    by_cases hc : s.buf.consumerPos = 0
    · refine ⟨2, ?_⟩
      simp [Machine.exec, machine, step, producerStep, hpc, reserveEnter, hfast, hend,
        hc, loopTest, afterReserve, not_lt.mp hend]
    · refine ⟨4, ?_⟩
      simp only [Machine.exec, machine, step, producerStep, hpc, reserveEnter, hfast, hle, hend,
        hc, loopTest, List.replicate, if_true, if_false, ne_eq, not_false_eq_true, Bool.not_false,
        Bool.true_and, decide_eq_true_eq]
      split_ifs <;> rfl
  · refine ⟨1, ?_⟩
    simp only [Machine.exec, machine, step, producerStep, hpc, reserveEnter, hfast, hle,
      loopTest, List.replicate, if_false, Bool.not_false, Bool.true_and, decide_eq_true_eq]
    split_ifs <;> rfl

/-- So is `finishReservation`, if its asserts hold. -/
theorem exec_finishReservation (s : Channel) {pos nbytes m : ℕ}
    (hpc : s.prod = .reserved pos nbytes) (hm : m ≤ nbytes) (hfree : m < s.buf.minFreeSpace)
    (hend : u64Add s.buf.producerPos m < stagingBufferSize) :
    machine.exec s [.inl (.finish m), .inl .advance] =
      some { s with
        buf := s.buf.finishReservation m
        prod := .idle
        finished := s.finished ++
          [⟨s.buf.producerPos, slice s.buf.storage s.buf.producerPos m⟩] } := by
  simp [Machine.exec, machine, step, producerStep, hpc, hm, hfree, hend, finishReservation]

/-- `peek` is what the consumer's steps do when nothing comes between them. -/
theorem exec_peek (s : Channel) {pos avail : ℕ} (hpc : s.cons = .idle pos avail) :
    ∃ k, machine.exec s (.inr .peek :: List.replicate k (.inr .advance)) =
      some { s with buf := s.buf.peek.1, cons := .idle s.buf.peek.2.1 s.buf.peek.2.2 } := by
  unfold peek
  by_cases hw : s.buf.producerPos < s.buf.consumerPos
  · by_cases havail : 0 < u64Sub s.buf.endOfRecordedSpace s.buf.consumerPos
    · refine ⟨2, ?_⟩
      simp [Machine.exec, machine, step, consumerStep, hpc, hw, havail]
    · refine ⟨4, ?_⟩
      simp [Machine.exec, machine, step, consumerStep, hpc, hw, havail]
  · refine ⟨1, ?_⟩
    simp [Machine.exec, machine, step, consumerStep, hpc, hw]

/-- So is `consume`. -/
theorem exec_consume (s : Channel) {pos avail nbytes : ℕ} (hpc : s.cons = .idle pos avail)
    (hn : nbytes ≤ avail) :
    machine.exec s [.inr (.consume nbytes), .inr .advance] =
      some { s with
        buf := s.buf.consume nbytes
        cons := .idle (pos + nbytes) (avail - nbytes)
        consumed := s.consumed ++ slice s.buf.storage pos nbytes } := by
  simp [Machine.exec, machine, step, consumerStep, hpc, hn, consume]

/-- **A reservation is served within four attempts.** From every reachable buffer, for every
size below `STAGING_BUFFER_SIZE`: when non-blocking attempts alternate with rounds of the
consumer, the fourth attempt at the latest does not return `nullptr`. -/
theorem reserve_within_four_attempts {s : Channel} (h : machine.Reachable s) {nbytes : ℕ}
    (hn : nbytes < stagingBufferSize) :
    ∃ i < 4, (((retry nbytes)^[i] s.buf).reserveProducerSpace nbytes).2.isSome := by
  obtain ⟨i, hi, hsome⟩ :=
    exists_attempt hn 3 s.buf (reachable_inv h).positions s.buf.phase_le
  exact ⟨i, by omega, hsome⟩

theorem reserve_within_four_attempts_sampleRun :
    ∃ s, machine.exec machine.init sampleRun = some s ∧
      ∃ i < 4, (((retry (stagingBufferSize - 1))^[i] s.buf).reserveProducerSpace
        (stagingBufferSize - 1)).2.isSome :=
  ⟨_, rfl, reserve_within_four_attempts
    (Machine.reachable_of_exec (show machine.exec machine.init sampleRun = some _ from rfl))
    (by norm_num [stagingBufferSize])⟩

end Channel

end ConstexprFmtStr
