import Mathlib.Tactic
import ConstexprFmtStr.Runtime.BufferPool

/-!
The bound on the live `SinkBuffer`s and what the reset of `newBufferCount_` does to it.

* `Sink.pendingCount`: the supplementary buffer in place whose increment is still to come.
* `Sink.resetAccounts`: the condition on a reset, that no more buffers are live than the four
  initial ones and the pending one.
* `newBufferCount_accounts`: in runs whose resets meet it the bound holds, and the first reset
  that does not meet it breaks the account.
* `live_exceeds_bound`: a run that goes past the bound. It fills buffer after buffer
  (`reaches_fill`, `reaches_grow`) while the sink thread parses one entry.
-/

namespace ConstexprFmtStr

open Word

namespace Sink

attribute [local simp] appenderStep threadStep

variable {s t : Sink}

/-! ### The account of the supplementary buffers -/

/-- The supplementary buffer that is in place while its increment is still to come. -/
def pendingCount (s : Sink) : ℕ :=
  match s.app with
  | .counting _ _ _ => 1
  | _ => 0

/-- A reset of `newBufferCount_` is taken only when it leaves no buffer out of the account. -/
def resetAccounts (s : Sink) (a : SinkAct) : Prop :=
  s.pc = .resetCount → a = .thread .advance → s.live ≤ 4 + s.pendingCount

instance (s : Sink) (a : SinkAct) : Decidable (resetAccounts s a) :=
  inferInstanceAs (Decidable (_ → _ → _))

/-- `newBufferCount_` accounts for every live buffer but the four initial ones, and has not
passed its limit. -/
structure Accounted (s : Sink) : Prop where
  live_le : s.live ≤ (if s.pc = .start then 2 else 4) + s.newBufferCount + s.pendingCount
  count_le : s.newBufferCount + s.pendingCount ≤ supplementarySinkBufferMaximumSize

/-- What a step of the appender adds to the pool it adds to the account. -/
lemma appenderStep_account (h : s.PoolInv) {a : AppenderAct} (ht : s.appenderStep a = some t) :
    t.nextId + (s.newBufferCount + s.pendingCount) =
        s.nextId + (t.newBufferCount + t.pendingCount) ∧
      (s.newBufferCount + s.pendingCount ≤ supplementarySinkBufferMaximumSize →
        t.newBufferCount + t.pendingCount ≤ supplementarySinkBufferMaximumSize) := by
  cases appenderStep_cases ht with
  | append happ =>
      obtain ⟨cur, hcur⟩ := h.current
      rcases append_cases hcur _ _ _ with ⟨-, heq⟩ | ⟨next, -, heq⟩ | ⟨-, hcount, heq⟩ | heq <;>
        rw [heq]
      · simp [beginBlock, pendingCount, happ]
      · simp [beginBlock, pendingCount, happ]
      · simp [pendingCount, happ]
        exact ⟨by omega, fun _ => hcount⟩
      · simp
  | count happ => simp [beginBlock, pendingCount, happ]
  | copy happ => simp [pendingCount, happ]
  | copyFails happ => simp [pendingCount, happ]
  | finish happ => simp [pendingCount, happ]
  | crash hcur =>
      obtain ⟨cur, hcur'⟩ := h.current
      rw [hcur] at hcur'
      cases hcur'

/-- A step whose reset, if it is one, meets the condition keeps the account. -/
lemma step_accounted (hpool : s.PoolInv) (h : s.Accounted) {a : SinkAct}
    (hG : resetAccounts s a) (ht : s.step a = some t) : t.Accounted := by
  have hlive := h.live_le
  have hcount := h.count_le
  cases a with
  | appender a =>
      have hmoves := appenderStep_moves ht
      have hle := hmoves.live_le
      obtain ⟨hacc, hmax⟩ := appenderStep_account hpool ht
      refine ⟨?_, hmax hcount⟩
      rw [(appenderStep_frame ht).1]
      have := hmoves.nextId_le
      omega
  | thread a =>
      have hmoves := threadStep_moves ht fun hpc => by
        have hth := hpool.thread
        rw [hpc] at hth
        exact ⟨hth.1, hth.2.1⟩
      have hle := hmoves.live_le
      obtain ⟨happ, -, hid, hcnt, -⟩ := threadStep_frame ht
      have hpend : t.pendingCount = s.pendingCount := by rw [pendingCount, happ, pendingCount]
      have hone : s.pendingCount ≤ 1 := by
        rw [pendingCount]
        split <;> omega
      have hreset : s.pc = .resetCount → s.live ≤ 4 + s.pendingCount := fun hpc => by
        cases a with
        | advance => exact hG hpc rfl
        | wake timeout => simp [step, hpc] at ht
      rw [hid] at hle
      refine ⟨?_, ?_⟩
      · rw [if_neg (threadStep_pc ht).1, hpend, hcnt]
        by_cases hpc : s.pc = .resetCount
        · have := hreset hpc
          simp [hpc] at hle ⊢
          omega
        · simp only [hpc, if_false]
          split_ifs at hle hlive with h1 h2 h2 <;> first | omega | exact absurd h1.1 h2
      · rw [hpend, hcnt]
        split_ifs
        · simp only [supplementarySinkBufferMaximumSize]
          omega
        · exact hcount
  | stop =>
      cases ht
      exact ⟨hlive, hcount⟩

lemma accounted_new : new.Accounted where
  live_le := by simp [live, held, new]
  count_le := Nat.zero_le _

/-- **What `newBufferCount_` accounts for.** In every run whose resets of `newBufferCount_` are
all taken with no buffer live but the four initial ones and a pending one, at most
`4 + SUPPLEMENTARY_SINKBUFFER_MAXIMUM_SIZE` buffers are live and `newBufferCount_` accounts for
each of them beyond four. The first reset that does not meet the condition leaves one out. -/
theorem newBufferCount_accounts (h : machine.Reaches resetAccounts new s) :
    s.live ≤ 4 + supplementarySinkBufferMaximumSize ∧
      s.live ≤ 4 + s.newBufferCount + s.pendingCount ∧
      ∀ t, s.pc = .resetCount → s.step (.thread .advance) = some t →
        (t.live ≤ 4 + t.newBufferCount + t.pendingCount ↔ resetAccounts s (.thread .advance)) := by
  have hacc : s.PoolInv ∧ s.Accounted :=
    Machine.Reaches.invariant (I := fun s => s.PoolInv ∧ s.Accounted) h
      ⟨poolInv_new, accounted_new⟩ fun hinv hG hst =>
        ⟨step_poolInv hinv.1 hst, step_accounted hinv.1 hinv.2 hG hst⟩
  have hlive := hacc.2.live_le
  have hcount := hacc.2.count_le
  refine ⟨by split_ifs at hlive <;> omega, by split_ifs at hlive <;> omega, fun t hpc ht => ?_⟩
  simp only [step, threadStep, hpc, Option.some.injEq] at ht
  subst ht
  exact ⟨fun hle _ _ => hle, fun hG => hG hpc rfl⟩

/-- A block is swapped out and parsed. The next one is begun before the reset and copied after
it. -/
theorem newBufferCount_accounts_sampleRun :
    ∃ r t s, machine.exec machine.init
        (sampleRun ++ List.replicate 7 (.thread .advance) ++ [.appender (.append 1 [66] 24)]) =
          some r ∧ r.pc = .resetCount ∧
      r.step (.thread .advance) = some t ∧
      t.live ≤ 4 + t.newBufferCount + t.pendingCount ∧
      machine.exec t ([.appender (.chunk sampleEntry), .appender .advance] ++
        List.replicate 3 (.thread .advance)) = some s ∧
      s.live ≤ 4 + supplementarySinkBufferMaximumSize ∧
      s.live ≤ 4 + s.newBufferCount + s.pendingCount := by
  refine ⟨_, _, _, rfl, rfl, rfl, ?_, rfl, ?_⟩
  · have hbefore := newBufferCount_accounts (Machine.reaches_of_guarded
      (show (machine.guarded resetAccounts).exec new (sampleRun ++
        List.replicate 7 (.thread .advance) ++ [.appender (.append 1 [66] 24)]) = some _ from rfl))
    exact (hbefore.2.2 _ rfl rfl).mpr (by decide)
  · have hafter := newBufferCount_accounts (Machine.reaches_of_guarded
      (show (machine.guarded resetAccounts).exec new (sampleRun ++
        List.replicate 7 (.thread .advance) ++ [.appender (.append 1 [66] 24)] ++
        [.thread .advance, .appender (.chunk sampleEntry), .appender .advance] ++
        List.replicate 3 (.thread .advance)) = some _ from rfl))
    exact ⟨hafter.1, hafter.2.1⟩

/-! ### A run past the bound -/

/-- The length of a block that takes `STAGING_BUFFER_SIZE` bytes with its header. -/
def blockLength : ℕ := stagingBufferSize - sizeofThreadCheckPoint

/-- The length of a buffer that has no room for one more such block. -/
def fullLength : ℕ := largeBuffer - stagingBufferSize

/-- Copying in chunks stores the whole block. -/
lemma reaches_copied (remaining : ℕ) : ∀ {s : Sink} {cur : SinkBuffer} {block : Block},
    s.app = .copying block remaining → s.currentBuffer = some cur →
    cur.length + remaining < largeBuffer →
    ∃ cur' appended, machine.Reaches Machine.anyStep s
        { s with currentBuffer := some cur', app := .outside, appended := appended } ∧
      cur'.length = cur.length + remaining := by
  induction remaining using Nat.strong_induction_on with
  | _ remaining ih =>
      intro s cur block happ hcur hroom
      by_cases hzero : remaining = 0
      · refine ⟨{ cur with blocks := cur.blocks ++ [block] }, s.appended ++ [block],
          .single (a := .appender .advance) trivial ?_, by simp [hzero, SinkBuffer.length]⟩
        simp [machine, step, happ, hcur, hzero]
      · have hpos : 0 < releaseThreshold := by decide
        obtain ⟨n, hn⟩ : ∃ n, n = min releaseThreshold remaining := ⟨_, rfl⟩
        have havail : n < cur.avail := by
          rw [SinkBuffer.avail]
          omega
        have hstep : machine.step s (.appender (.chunk (List.replicate n 0))) = some { s with
            currentBuffer := some (cur.write (List.replicate n 0))
            app := .copying { block with bytes := block.bytes ++ List.replicate n 0 }
              (remaining - n) } := by
          simp [machine, step, happ, hcur, Nat.pos_of_ne_zero hzero, hn] at havail ⊢
          omega
        obtain ⟨cur', appended, hreach, hlen⟩ := ih (remaining - n) (by omega)
          (s := { s with
            currentBuffer := some (cur.write (List.replicate n 0))
            app := .copying { block with bytes := block.bytes ++ List.replicate n 0 }
              (remaining - n) }) rfl rfl (by
            simp [SinkBuffer.length, SinkBuffer.write] at hroom ⊢
            omega)
        refine ⟨cur', appended, (Machine.Reaches.single trivial hstep).trans hreach, ?_⟩
        simp [SinkBuffer.length, SinkBuffer.write] at hlen hroom ⊢
        omega

lemma stagingBufferSize_pos : 0 < stagingBufferSize := by
  norm_num [stagingBufferSize]

lemma blockLength_add : blockLength + sizeofThreadCheckPoint = stagingBufferSize := by
  rw [blockLength, Nat.sub_add_cancel (by norm_num [sizeofThreadCheckPoint, stagingBufferSize])]

/-- A buffer takes one more block as long as it is not full. -/
lemma fits_iff {cur : SinkBuffer} :
    blockLength + sizeofThreadCheckPoint < cur.avail ↔ cur.length < fullLength := by
  rw [blockLength_add, SinkBuffer.avail, fullLength, Nat.lt_sub_iff_add_lt,
    Nat.lt_sub_iff_add_lt, Nat.add_comm]

lemma fullLength_add : fullLength + stagingBufferSize = largeBuffer := by
  norm_num [fullLength, largeBuffer, stagingBufferSize]

/-- From the start of a block in a buffer with room for it, the block gets stored. -/
lemma reaches_block {cur : SinkBuffer} (hroom : cur.length + stagingBufferSize < largeBuffer)
    {u : Sink} (hu : u = s.beginBlock cur 0 [65] blockLength) :
    ∃ cur' appended, machine.Reaches Machine.anyStep u
        { s with currentBuffer := some cur', app := .outside, appended := appended } ∧
      cur'.length = cur.length + stagingBufferSize := by
  have hlen : (cur.write (threadCheckPoint [65] blockLength)).length + blockLength =
      cur.length + stagingBufferSize := by
    simp only [SinkBuffer.length, SinkBuffer.write, List.length_append,
      length_threadCheckPoint (show [(65 : UInt8)].length ≤ 20 by decide), ← blockLength_add]
    omega
  subst hu
  obtain ⟨cur', appended, hreach, hcur'⟩ := reaches_copied blockLength
    (s := s.beginBlock cur 0 [65] blockLength) rfl rfl (by rw [hlen]; exact hroom)
  exact ⟨cur', appended, hreach, by rw [hcur', hlen]⟩

/-- The call of `append` for such a block. -/
lemma step_append (happ : s.app = .outside) :
    machine.step s (.appender (.append 0 [65] blockLength)) =
      some (s.append 0 [65] blockLength) := by
  simp [machine, step, happ, blockLength]

/-- Blocks go into the current buffer while it has room. -/
lemma reaches_fill (n : ℕ) : ∀ {s : Sink} {cur : SinkBuffer}, s.app = .outside →
    s.currentBuffer = some cur → cur.length + n * stagingBufferSize ≤ fullLength →
    ∃ cur' appended, machine.Reaches Machine.anyStep s
        { s with currentBuffer := some cur', appended := appended } ∧
      cur'.length = cur.length + n * stagingBufferSize := by
  induction n with
  | zero =>
      intro s cur happ hcur _
      exact ⟨cur, s.appended, by rw [← hcur]; exact .refl, by simp⟩
  | succ n ih =>
      intro s cur happ hcur hroom
      have hpos := stagingBufferSize_pos
      have hlt : cur.length < fullLength := by
        rw [Nat.add_mul] at hroom
        omega
      have happend : s.append 0 [65] blockLength = s.beginBlock cur 0 [65] blockLength := by
        simp [append, hcur, fits_iff.mpr hlt]
      obtain ⟨cur₁, appended₁, hreach₁, hlen₁⟩ := reaches_block
        (by rw [← fullLength_add]; omega) happend
      obtain ⟨cur₂, appended₂, hreach₂, hlen₂⟩ := ih (s := { s with
        currentBuffer := some cur₁, app := .outside, appended := appended₁ }) rfl rfl
        (by rw [hlen₁]; linarith)
      refine ⟨cur₂, appended₂, ?_, by rw [hlen₂, hlen₁]; ring⟩
      have hstep := Machine.Reaches.single (G := Machine.anyStep) trivial (step_append happ)
      simpa [happ] using (hstep.trans hreach₁).trans hreach₂

/-- How many more blocks fill a buffer that has just received its first. -/
lemma fullLength_eq : fullLength = stagingBufferSize + 126 * stagingBufferSize := by
  norm_num [fullLength, largeBuffer, stagingBufferSize]

/-- With the current buffer full, the next one takes its place and is filled. -/
lemma reaches_next {cur next : SinkBuffer} (happ : s.app = .outside)
    (hcur : s.currentBuffer = some cur) (hfull : cur.length = fullLength)
    (hnext : s.nextBuffer = some next) (hempty : next.length = 0) :
    ∃ cur' appended, machine.Reaches Machine.anyStep s { s with
        buffers := s.buffers ++ [cur], currentBuffer := some cur', nextBuffer := none,
        appended := appended } ∧ cur'.length = fullLength := by
  have happend : s.append 0 [65] blockLength =
      { s with buffers := s.buffers ++ [cur], nextBuffer := none }.beginBlock next 0 [65]
        blockLength := by
    have hnot : ¬blockLength + sizeofThreadCheckPoint < cur.avail := by
      rw [fits_iff]
      omega
    simp [append, hcur, hnot, hnext]
  have hpos := stagingBufferSize_pos
  have heq := fullLength_eq
  obtain ⟨cur₁, appended₁, hreach₁, hlen₁⟩ := reaches_block
    (by rw [hempty, ← fullLength_add, heq]; omega) happend
  rw [hempty, Nat.zero_add] at hlen₁
  obtain ⟨cur₂, appended₂, hreach₂, hlen₂⟩ := reaches_fill 126 (s := { s with
    buffers := s.buffers ++ [cur], currentBuffer := some cur₁, nextBuffer := none,
    app := .outside, appended := appended₁ }) rfl rfl (by rw [hlen₁, ← heq])
  refine ⟨cur₂, appended₂, ?_, by rw [hlen₂, hlen₁, ← heq]⟩
  have hstep := Machine.Reaches.single (G := Machine.anyStep) trivial (step_append happ)
  simpa [happ] using (hstep.trans hreach₁).trans hreach₂

/-- With no next buffer and `newBufferCount_` below its limit, a new buffer takes the place of
the full one and is filled. -/
lemma reaches_grow {cur : SinkBuffer} (happ : s.app = .outside)
    (hcur : s.currentBuffer = some cur) (hfull : cur.length = fullLength)
    (hnext : s.nextBuffer = none)
    (hcount : s.newBufferCount < supplementarySinkBufferMaximumSize) :
    ∃ cur' appended, machine.Reaches Machine.anyStep s { s with
        newBufferCount := s.newBufferCount + 1, buffers := s.buffers ++ [cur],
        currentBuffer := some cur', nextId := s.nextId + 1, appended := appended } ∧
      cur'.length = fullLength := by
  have hnot : ¬blockLength + sizeofThreadCheckPoint < cur.avail := by
    rw [fits_iff]
    omega
  -- the critical section up to the increment, and the increment
  have hsteps : machine.exec s [.appender (.append 0 [65] blockLength), .appender .advance] =
      some ({ s with
        newBufferCount := s.newBufferCount + 1, buffers := s.buffers ++ [cur],
        currentBuffer := some (.new s.nextId), nextId := s.nextId + 1 }.beginBlock
          (.new s.nextId) 0 [65] blockLength) := by
    have happend := step_append happ
    rw [Machine.exec_cons happend]
    simp [Machine.exec, machine, step, append, hcur, hnot, hnext, hcount, beginBlock]
  have hpos := stagingBufferSize_pos
  have heq := fullLength_eq
  have hempty : (SinkBuffer.new s.nextId).length = 0 := rfl
  obtain ⟨cur₁, appended₁, hreach₁, hlen₁⟩ := reaches_block (s := { s with
    newBufferCount := s.newBufferCount + 1, buffers := s.buffers ++ [cur],
    currentBuffer := some (.new s.nextId), nextId := s.nextId + 1 })
    (by rw [hempty, ← fullLength_add, heq]; omega) rfl
  rw [hempty, Nat.zero_add] at hlen₁
  obtain ⟨cur₂, appended₂, hreach₂, hlen₂⟩ := reaches_fill 126 (s := { s with
    newBufferCount := s.newBufferCount + 1, buffers := s.buffers ++ [cur],
    currentBuffer := some cur₁, nextId := s.nextId + 1, app := .outside,
    appended := appended₁ }) rfl rfl (by rw [hlen₁, ← heq])
  refine ⟨cur₂, appended₂, ?_, by rw [hlen₂, hlen₁, ← heq]⟩
  have hstart := Machine.reaches_of_exec (G := Machine.anyStep) (fun _ _ _ => trivial) hsteps
  simpa [happ] using (hstart.trans hreach₁).trans hreach₂

/-- Every buffer the appender can get without allocating is full. -/
structure Full (s : Sink) : Prop where
  app : s.app = .outside
  current : ∃ cur, s.currentBuffer = some cur ∧ cur.length = fullLength
  next : s.nextBuffer = none

/-- The sink thread has not moved from `s` to `t`. -/
structure SameThread (s t : Sink) : Prop where
  pc : t.pc = s.pc
  newBuffer1 : t.newBuffer1 = s.newBuffer1
  newBuffer2 : t.newBuffer2 = s.newBuffer2
  buffersToWrite : t.buffersToWrite = s.buffersToWrite

/-- As long as `newBufferCount_` allows it, the appender adds full buffers. -/
lemma reaches_supplementary (n : ℕ) : ∀ {s : Sink}, s.Full →
    s.newBufferCount + n ≤ supplementarySinkBufferMaximumSize →
    ∃ t, machine.Reaches Machine.anyStep s t ∧ t.Full ∧ SameThread s t ∧ t.live = s.live + n := by
  induction n with
  | zero => exact fun {s} h _ => ⟨s, .refl, h, ⟨rfl, rfl, rfl, rfl⟩, rfl⟩
  | succ n ih =>
      intro s h hcount
      obtain ⟨cur, hcur, hfull⟩ := h.current
      obtain ⟨cur', appended, hreach, hfull'⟩ :=
        reaches_grow h.app hcur hfull h.next (by omega)
      obtain ⟨t, hreach', ht, hsame, hlive⟩ := ih (s := { s with
        newBufferCount := s.newBufferCount + 1, buffers := s.buffers ++ [cur],
        currentBuffer := some cur', nextId := s.nextId + 1, appended := appended })
        ⟨h.app, ⟨cur', rfl, hfull'⟩, h.next⟩ (by simp only; omega)
      refine ⟨t, hreach.trans hreach', ht,
        ⟨hsame.pc, hsame.newBuffer1, hsame.newBuffer2, hsame.buffersToWrite⟩, ?_⟩
      simp [live, held, hcur] at hlive ⊢
      omega

/-- The state after `sampleRun`: a batch of one entry is about to be parsed. -/
def swapped : Sink :=
  let block : Block := ⟨0, [65], sampleEntry⟩
  { new with
    currentBuffer := some (.new 2)
    newBuffer2 := some (.new 3)
    buffersToWrite := [⟨0, threadCheckPoint [65] 24 ++ sampleEntry, [block]⟩]
    pc := .buffer 0
    nextId := 4
    appended := [block] }

lemma reachable_swapped : machine.Reachable swapped :=
  Machine.reachable_of_exec (show machine.exec machine.init sampleRun = some swapped from rfl)

/-- The batch gets parsed and the count reset, whatever the appender has done meanwhile. -/
lemma reaches_reset (h : SameThread swapped s) :
    ∃ formatted, machine.Reaches Machine.anyStep s
      { s with newBufferCount := 0, pc := .refill1, formatted := formatted } := by
  obtain ⟨hpc, h1, h2, hbatch⟩ := h
  cases s
  dsimp only [swapped] at hpc h1 h2 hbatch
  subst hpc h1 h2 hbatch
  exact ⟨_, Machine.reaches_of_exec (fun _ _ _ => trivial)
    (show machine.exec _ (List.replicate 8 (.thread .advance)) = some _ from rfl)⟩

/-- While the sink thread parses one entry the appender fills the current buffer, the next one
and the four supplementary ones. Then the count is reset and the appender goes on. -/
theorem live_exceeds_bound :
    ∃ s, machine.Reachable s ∧ 4 + supplementarySinkBufferMaximumSize < s.live := by
  have hpos := stagingBufferSize_pos
  have heq := fullLength_eq
  obtain ⟨cur₁, appended₁, hreach₁, hfull₁⟩ := reaches_fill 127 (s := swapped) rfl rfl
    (by simp only [SinkBuffer.length, SinkBuffer.new, List.length_nil]; omega)
  have hlen₁ : cur₁.length = fullLength := by
    simp only [SinkBuffer.length, SinkBuffer.new, List.length_nil] at hfull₁ ⊢
    omega
  obtain ⟨cur₂, appended₂, hreach₂, hfull₂⟩ := reaches_next (s := { swapped with
    currentBuffer := some cur₁, appended := appended₁ }) rfl rfl hlen₁ rfl rfl
  obtain ⟨s₃, hreach₃, hfull₃, hsame₃, hlive₃⟩ := reaches_supplementary 4 (s := { swapped with
      buffers := [cur₁], currentBuffer := some cur₂, nextBuffer := none,
      appended := appended₂ })
    ⟨rfl, ⟨cur₂, rfl, hfull₂⟩, rfl⟩ le_rfl
  obtain ⟨formatted, hreach₄⟩ := reaches_reset
    ⟨hsame₃.pc, hsame₃.newBuffer1, hsame₃.newBuffer2, hsame₃.buffersToWrite⟩
  obtain ⟨s₅, hreach₅, -, -, hlive₅⟩ := reaches_supplementary 1 (s := { s₃ with
      newBufferCount := 0, pc := .refill1, formatted := formatted })
    ⟨hfull₃.app, hfull₃.current, hfull₃.next⟩ (by simp [supplementarySinkBufferMaximumSize])
  refine ⟨s₅, Machine.Reachable.reaches reachable_swapped
    ((((hreach₁.trans hreach₂).trans hreach₃).trans hreach₄).trans hreach₅), ?_⟩
  rw [hlive₅, show live { s₃ with newBufferCount := 0, pc := .refill1, formatted := formatted } =
    s₃.live from rfl, hlive₃]
  simp [live, held, swapped, supplementarySinkBufferMaximumSize]

end Sink

end ConstexprFmtStr
