import Mathlib.Tactic
import ConstexprFmtStr.Lib.Progress
import ConstexprFmtStr.Runtime.SinkParse

/-!
The sink thread goes round (`threadFunc` in `runtime_logger.cpp`).

* `Sink.SameQueue`: what a round leaves alone from the swap section to the head of the loop.
* `Sink.batch_leadsTo`: a batch is done with.
* `Sink.Unlocked`: `mutex_` is free. `Unlocked.swaps`: the thread takes the queue, and after it
  `nextBuffer_` is there. `Unlocked.toLoopHead`: it comes to the head of its loop.
* `Sink.Turning`: it also runs.
* `Turning.flushes`: two rounds, the last after a time-out, leave nothing in the queue and in the
  current buffer. `Turning.makes_room`: an `append` finds room.
-/

namespace ConstexprFmtStr

open Word

/-- A buffer of length 0 holds no block. -/
lemma SinkBuffer.Stored.blocks_nil {log : List Block} {b : SinkBuffer} (h : b.Stored log)
    (hsane : ∀ blk ∈ log, blk.Sane) (hlen : b.length = 0) : b.blocks = [] := by
  rw [List.eq_nil_iff_forall_not_mem]
  intro blk hblk
  have hencode := (hsane blk (h.logged hblk)).length_encode
  have hmem : blk.encode.length ≤ b.data.length := by
    rw [h.data_eq]
    exact (List.sublist_flatten_of_mem (List.mem_map_of_mem hblk)).length_le
  have hpos : 0 < sizeofThreadCheckPoint := by decide
  rw [SinkBuffer.length] at hlen
  omega

namespace Sink

attribute [local simp] threadStep

variable {s t : Sink}

/-! ### A batch -/

/-- What the sink thread leaves alone outside its swap section. -/
structure SameQueue (s t : Sink) : Prop where
  app_eq : t.app = s.app
  running_eq : t.running = s.running
  currentBuffer_eq : t.currentBuffer = s.currentBuffer
  nextBuffer_eq : t.nextBuffer = s.nextBuffer
  buffers_eq : t.buffers = s.buffers
  appended_eq : t.appended = s.appended

lemma SameQueue.refl (s : Sink) : SameQueue s s := ⟨rfl, rfl, rfl, rfl, rfl, rfl⟩

lemma SameQueue.trans {u : Sink} (h : SameQueue s t) (h' : SameQueue t u) : SameQueue s u where
  app_eq := h'.app_eq.trans h.app_eq
  running_eq := h'.running_eq.trans h.running_eq
  currentBuffer_eq := h'.currentBuffer_eq.trans h.currentBuffer_eq
  nextBuffer_eq := h'.nextBuffer_eq.trans h.nextBuffer_eq
  buffers_eq := h'.buffers_eq.trans h.buffers_eq
  appended_eq := h'.appended_eq.trans h.appended_eq

lemma sameQueue_parseEntry (s : Sink) (i k : ℕ) (bufLen : ℤ) (hdr pos : ℕ) (remaining : ℤ)
    (b : SinkBuffer) : SameQueue s (s.parseEntry i k bufLen hdr pos remaining b) := by
  simp only [parseEntry]
  split
  · split
    · split_ifs <;> exact ⟨rfl, rfl, rfl, rfl, rfl, rfl⟩
    · exact ⟨rfl, rfl, rfl, rfl, rfl, rfl⟩
  · exact ⟨rfl, rfl, rfl, rfl, rfl, rfl⟩

/-- A step with a batch in hand. -/
lemma threadStep_sameQueue {a : SinkThreadAct} (ht : s.threadStep a = some t)
    (hpc : s.pc ≠ .lock ∧ s.pc ≠ .waiting) : SameQueue s t := by
  cases threadStep_cases ht with
  | swap hswap => exact (hswap.elim hpc.1 hpc.2).elim
  | parseEntry => exact sameQueue_parseEntry ..
  | _ => exact ⟨rfl, rfl, rfl, rfl, rfl, rfl⟩

lemma sameQueue_of_batch (h : machine.Reaches batchAlone s t) : SameQueue s t := by
  refine h.invariant (SameQueue.refl s) fun {u v a} hu hG hst => ?_
  obtain ⟨rfl, hbatch⟩ := hG
  refine hu.trans (threadStep_sameQueue hst ⟨?_, ?_⟩) <;> intro hpc <;> rw [hpc] at hbatch <;>
    cases hbatch

/-- The state is reachable, and only whole entries were appended. -/
structure Formats (s : Sink) : Prop where
  reachable : machine.Reachable s
  whole : ∀ blk ∈ s.appended, blk.WholeEntries

lemma Formats.of_batch (h : s.Formats) (hst : machine.Reaches batchAlone s t) : t.Formats := by
  refine ⟨h.reachable.reaches (hst.mono fun _ _ _ => trivial), ?_⟩
  rw [(sameQueue_of_batch hst).appended_eq]
  exact h.whole

/-- The sink thread is in the loop over its batch. -/
def inParse : SinkPc → Bool
  | .buffer _ | .parse _ _ _ _ | .entries _ _ _ _ _ _ => true
  | _ => false

/-- Within this loop the batch stays as it is. -/
lemma threadStep_inParse (ht : s.threadStep .advance = some t) (hs : inBatch s.pc = true)
    (hpc : inParse t.pc = true) : inParse s.pc = true ∧ t.buffersToWrite = s.buffersToWrite := by
  cases threadStep_cases ht with
  | buffer h | parseHeader h | endBuffer h | parseNext h => exact ⟨by rw [h]; rfl, rfl⟩
  | parseEntry h =>
      refine ⟨by rw [h]; rfl, ?_⟩
      simp only [parseEntry]
      split
      · split
        · split_ifs <;> rfl
        · rfl
      · rfl
  | swap h => rcases h with h | h <;> rw [h] at hs <;> cases hs
  | start h | notRunning h | loopHead h | wait h => rw [h] at hs; cases hs
  | _ => cases hpc

lemma buffersToWrite_of_batch (h : machine.Reaches batchAlone s t) (hpc : inParse t.pc = true) :
    t.buffersToWrite = s.buffersToWrite := by
  refine h.invariant (I := fun t => inParse t.pc = true → t.buffersToWrite = s.buffersToWrite)
    (fun _ => rfl) (fun {u v a} hu hG hst hv => ?_) hpc
  obtain ⟨rfl, hbatch⟩ := hG
  obtain ⟨hparse, hsame⟩ := threadStep_inParse hst hbatch hv
  exact hsame.trans (hu hparse)

/-- How far the sink thread is from the end of its batch. -/
def batchLeft (s : Sink) : ℕ :=
  match s.pc with
  | .buffer i => 6 + 2 * (s.buffersToWrite.length - i)
  | .parse i _ _ _ => 5 + 2 * (s.buffersToWrite.length - i)
  | .entries i _ _ _ _ _ => 5 + 2 * (s.buffersToWrite.length - i)
  | .resize => 5
  | .resetCount => 4
  | .refill1 => 3
  | .refill2 => 2
  | .clear => 1
  | _ => 0

/-- In the parse loops the thread comes to the next buffer. -/
lemma Formats.parse_reaches (h : s.Formats) {i : ℕ}
    (hpc : (∃ k bufLen pos, s.pc = .parse i k bufLen pos) ∨
      ∃ k bufLen hdr pos remaining, s.pc = .entries i k bufLen hdr pos remaining) :
    ∃ t, machine.Reaches batchAlone s t ∧ inBatch t.pc = true ∧ batchLeft t < batchLeft s := by
  obtain ⟨t, hst, ht⟩ := parse_terminates_batch h.reachable h.whole hpc
  have hsame : t.buffersToWrite = s.buffersToWrite :=
    buffersToWrite_of_batch hst (by rw [ht]; rfl)
  have hinv := reachable_parseInv h.reachable h.whole
  have hlt : i < s.buffersToWrite.length := by
    rcases hpc with ⟨k, bufLen, pos, hpc⟩ | ⟨k, bufLen, hdr, pos, remaining, hpc⟩ <;>
      rw [hpc] at hinv
    · obtain ⟨b, hb, -⟩ := hinv
      exact (List.getElem?_eq_some_iff.mp hb).1
    · obtain ⟨b, blk, done, todo, hb, -⟩ := hinv
      exact (List.getElem?_eq_some_iff.mp hb).1
  refine ⟨t, hst, by rw [ht]; rfl, ?_⟩
  rw [batchLeft, batchLeft, ht, hsame]
  rcases hpc with ⟨k, bufLen, pos, hpc⟩ | ⟨k, bufLen, hdr, pos, remaining, hpc⟩ <;>
    rw [hpc] <;> dsimp only <;> omega

/-- **A batch is done with.** -/
lemma batch_leadsTo :
    machine.LeadsTo batchAlone (fun s => s.Formats ∧ inBatch s.pc = true)
      fun s => s.pc = .loopHead := by
  refine .of_measure batchLeft fun s hs => ?_
  obtain ⟨hformats, hbatch⟩ := hs
  have hpool := reachable_poolInv hformats.reachable
  have hth := hpool.thread
  -- one step is enough outside the parse loops
  have hone {t : Sink} (hst : s.threadStep .advance = some t) (ht : inBatch t.pc = true)
      (hlt : batchLeft t < batchLeft s) : ∃ t, machine.Reaches batchAlone s t ∧
        (t.pc = .loopHead ∨ (t.Formats ∧ inBatch t.pc = true) ∧ batchLeft t < batchLeft s) :=
    have hreach : machine.Reaches batchAlone s t :=
      .single ⟨rfl, hbatch⟩ (show machine.step s (.thread .advance) = some t from hst)
    ⟨t, hreach, .inr ⟨⟨hformats.of_batch hreach, ht⟩, hlt⟩⟩
  cases hpc : s.pc with
  | buffer i =>
      cases hb : s.buffersToWrite[i]? with
      | none =>
          refine hone (t := { s with pc := .resize }) (by simp [hpc, hb]) rfl ?_
          rw [batchLeft, batchLeft, hpc]
          dsimp only
          omega
      | some b =>
          have hlt := (List.getElem?_eq_some_iff.mp hb).1
          refine hone (t := { s with pc := .parse i 0 b.length 0 }) (by simp [hpc, hb]) rfl ?_
          rw [batchLeft, batchLeft, hpc]
          dsimp only
          omega
  | parse i k bufLen pos =>
      obtain ⟨t, hst, ht, hlt⟩ := hformats.parse_reaches (.inl ⟨_, _, _, hpc⟩)
      exact ⟨t, hst, .inr ⟨⟨hformats.of_batch hst, ht⟩, hlt⟩⟩
  | entries i k bufLen hdr pos remaining =>
      obtain ⟨t, hst, ht, hlt⟩ := hformats.parse_reaches (.inr ⟨_, _, _, _, _, hpc⟩)
      exact ⟨t, hst, .inr ⟨⟨hformats.of_batch hst, ht⟩, hlt⟩⟩
  | resize =>
      refine hone (by simp [hpc]; rfl) rfl ?_
      rw [batchLeft, batchLeft, hpc]
      dsimp only
      omega
  | resetCount =>
      refine hone (by simp [hpc]; rfl) rfl ?_
      rw [batchLeft, batchLeft, hpc]
      dsimp only
      omega
  | refill1 =>
      rw [hpc] at hth
      obtain ⟨⟨b, rest⟩, hrefill⟩ := Option.ne_none_iff_exists'.mp (refill_ne_none hth (.inl rfl))
      refine hone (by simp [hpc, hrefill]; rfl) rfl ?_
      rw [batchLeft, batchLeft, hpc]
      dsimp only
      omega
  | refill2 =>
      rw [hpc] at hth
      obtain ⟨⟨b, rest⟩, hrefill⟩ := Option.ne_none_iff_exists'.mp (refill_ne_none hth.2 (.inr rfl))
      refine hone (by simp [hpc, hrefill]; rfl) rfl ?_
      rw [batchLeft, batchLeft, hpc]
      dsimp only
      omega
  | clear =>
      refine ⟨{ s with buffersToWrite := [], pc := .loopHead }, .single ⟨rfl, hbatch⟩ ?_, .inl rfl⟩
      simp [machine, Sink.step, hpc]
  | _ => rw [hpc] at hbatch; cases hbatch

/-! ### A round -/

/-- The sink thread alone takes a step. -/
def threadAlone : Sink → SinkAct → Prop := fun _ a => ∃ b, a = .thread b

/-- `mutex_` is free, and what was appended can be formatted. -/
structure Unlocked (s : Sink) : Prop where
  formats : s.Formats
  app_eq : s.app = .outside

lemma Unlocked.step (h : s.Unlocked) {a : SinkThreadAct} (hst : s.threadStep a = some t) :
    t.Unlocked := by
  obtain ⟨happ, happended, -⟩ := threadStep_frame hst
  have hstep : machine.step s (.thread a) = some t := hst
  refine ⟨⟨h.formats.reachable.step hstep, ?_⟩, happ.trans h.app_eq⟩
  rw [happended]
  exact h.formats.whole

lemma Unlocked.of_reaches (h : s.Unlocked) (hst : machine.Reaches threadAlone s t) :
    t.Unlocked ∧ t.appended = s.appended ∧ t.running = s.running := by
  refine hst.invariant
    (I := fun t => t.Unlocked ∧ t.appended = s.appended ∧ t.running = s.running) ⟨h, rfl, rfl⟩
    fun {u v a} hu hG hv => ?_
  obtain ⟨b, rfl⟩ := hG
  obtain ⟨-, happended, -, -, hrunning, -⟩ := threadStep_frame hv
  exact ⟨hu.1.step hv, happended.trans hu.2.1, hrunning.trans hu.2.2⟩

/-- The sink thread goes round, and `mutex_` is free. -/
structure Turning (s : Sink) : Prop extends Unlocked s where
  running_eq : s.running = true
  ne_exited : s.pc ≠ .exited
  ne_notRunning : s.pc ≠ .notRunning

lemma Turning.step (h : s.Turning) {a : SinkThreadAct} (hst : s.threadStep a = some t) :
    t.Turning := by
  obtain ⟨-, -, -, -, hrunning, -⟩ := threadStep_frame hst
  obtain ⟨-, hnot, hexited⟩ := threadStep_pc hst
  refine ⟨h.toUnlocked.step hst, hrunning.trans h.running_eq, fun hpc => ?_, fun hpc => ?_⟩
  · rw [h.running_eq] at hexited
    exact absurd (hexited hpc).2.2 (by simp)
  · rw [h.running_eq] at hnot
    exact absurd (hnot hpc).2 (by simp)

lemma Turning.of_reaches (h : s.Turning) (hst : machine.Reaches threadAlone s t) : t.Turning := by
  refine hst.invariant (I := Turning) h fun {u v a} hu hG hv => ?_
  obtain ⟨b, rfl⟩ := hG
  exact hu.step hv

/-- The state behind the swap section. -/
structure Swapped (s : Sink) : Prop where
  buffers_eq : s.buffers = []
  nextBuffer_ne : s.nextBuffer ≠ none
  pc : inBatch s.pc = true ∨ s.pc = .loopHead

/-- The swap section takes the queue, and after a time-out the current buffer too. -/
lemma Unlocked.swapSection_spec (h : s.Unlocked) (hpc : s.pc = .lock ∨ s.pc = .waiting)
    (timeout : Bool) : Swapped (s.swapSection timeout) ∧
      (timeout = true → (s.swapSection timeout).queuedBlocks = []) := by
  obtain ⟨hpool, hstore⟩ := reachable_storeInv h.formats.reachable
  have hth := hpool.thread
  have hidle : s.sparesGiven = 0 ∧ s.buffersToWrite = [] := by
    rcases hpc with hpc | hpc <;> rw [hpc] at hth <;> exact hth
  obtain ⟨cur, hcur⟩ := hpool.current
  obtain ⟨⟨b1, hb1⟩, b2, hb2⟩ := spares_of_sparesGiven hidle.1
  rw [swapSection_eq hcur hb1 hb2 hidle.2]
  refine ⟨⟨rfl, by simp, ?_⟩, fun htimeout => ?_⟩
  · split_ifs <;> simp [inBatch]
  · have hcurrent := hstore.current
    rw [h.app_eq] at hcurrent
    subst htimeout
    simp only [queuedBlocks, List.flatMap_nil, List.nil_append, Option.toList_some,
      List.flatMap_singleton, worthSwapping, decide_eq_true_eq]
    split_ifs with hlen
    · exact hstore.fresh b1 (.inr (.inl hb1))
    · exact (hcurrent cur hcur).blocks_nil hstore.sane (by omega)

/-- The thread gets through its swap section. -/
lemma Unlocked.swaps (h : s.Unlocked) (hpc : s.pc = .lock ∨ s.pc = .waiting) :
    ∃ t, machine.Reaches threadAlone s t ∧ t.Swapped ∧ (s.buffers = [] → t.queuedBlocks = []) := by
  have hwake {s : Sink} (h : s.Unlocked) (hpc : s.pc = .waiting) :
      ∃ t, machine.Reaches threadAlone s t ∧ t.Swapped ∧ t.queuedBlocks = [] := by
    obtain ⟨hswapped, hqueued⟩ := h.swapSection_spec (.inr hpc) true
    have hst : machine.step s (.thread (.wake true)) = some (s.swapSection true) := by
      simp [machine, Sink.step, hpc, h.app_eq]
    exact ⟨_, .single ⟨_, rfl⟩ hst, hswapped, hqueued rfl⟩
  rcases hpc with hpc | hpc
  · by_cases hempty : s.buffers = []
    · have hst : s.threadStep .advance = some { s with pc := .waiting } := by
        simp [hpc, h.app_eq, hempty]
      obtain ⟨t, hreach, hswapped, hqueued⟩ := hwake (h.step hst) rfl
      have hfirst : machine.Reaches threadAlone s { s with pc := .waiting } :=
        .single ⟨_, rfl⟩ (show machine.step s (.thread .advance) = some _ from hst)
      exact ⟨t, hfirst.trans hreach, hswapped, fun _ => hqueued⟩
    · obtain ⟨hswapped, -⟩ := h.swapSection_spec (.inl hpc) false
      have hst : machine.step s (.thread .advance) = some (s.swapSection false) := by
        simp [machine, Sink.step, hpc, h.app_eq, hempty]
      exact ⟨_, .single ⟨_, rfl⟩ hst, hswapped, fun h => absurd h hempty⟩
  · obtain ⟨t, hreach, hswapped, hqueued⟩ := hwake h hpc
    exact ⟨t, hreach, hswapped, fun _ => hqueued⟩

/-- With a batch in hand the thread comes to the head of its loop. -/
lemma Unlocked.batch_done (h : s.Unlocked) (hpc : inBatch s.pc = true ∨ s.pc = .loopHead) :
    ∃ t, machine.Reaches threadAlone s t ∧ SameQueue s t ∧ t.pc = .loopHead := by
  rcases hpc with hpc | hpc
  · obtain ⟨t, hst, ht⟩ := batch_leadsTo s ⟨h.formats, hpc⟩
    exact ⟨t, hst.mono fun _ _ hG => ⟨_, hG.1⟩, sameQueue_of_batch hst, ht⟩
  · exact ⟨s, .refl, SameQueue.refl s, hpc⟩

/-- At the head of its loop the thread goes on. -/
lemma Turning.toLock (h : s.Turning) (hpc : s.pc = .loopHead) :
    machine.step s (.thread .advance) = some { s with pc := .lock } := by
  have hst : machine.step s (.thread .advance) =
      some { s with pc := if s.loopAsserts then .lock else .aborted } := by
    simp [machine, Sink.step, hpc, h.running_eq]
  have hpool := (threadStep_poolInv (reachable_poolInv h.formats.reachable) hst).thread
  dsimp only at hpool
  rw [hst]
  split_ifs with hasserts
  · rfl
  · rw [if_neg hasserts] at hpool
    exact hpool.elim

/-- **A round**: the queue is taken and formatted; if there was none, so is the current buffer. -/
lemma Turning.round (h : s.Turning) (hpc : s.pc = .loopHead) :
    ∃ t, machine.Reaches threadAlone s t ∧ t.pc = .loopHead ∧ t.buffers = [] ∧
      t.nextBuffer ≠ none ∧ (s.buffers = [] → t.queuedBlocks = []) := by
  have hlock := h.toLock hpc
  have hturning : Turning { s with pc := .lock } := h.step hlock
  obtain ⟨t, hst, hswapped, hqueued⟩ := hturning.swaps (.inl rfl)
  obtain ⟨u, htu, hsame, hu⟩ := (hturning.toUnlocked.of_reaches hst).1.batch_done hswapped.pc
  have hfirst : machine.Reaches threadAlone s { s with pc := .lock } := .single ⟨_, rfl⟩ hlock
  refine ⟨u, (hfirst.trans hst).trans htu, hu, ?_, ?_, fun hempty => ?_⟩
  · rw [hsame.buffers_eq, hswapped.buffers_eq]
  · rw [hsame.nextBuffer_eq]
    exact hswapped.nextBuffer_ne
  · rw [queuedBlocks, hsame.buffers_eq, hsame.currentBuffer_eq]
    exact hqueued hempty

/-- **The sink thread comes to the head of its loop**, from wherever it is in it. -/
lemma Unlocked.toLoopHead (h : s.Unlocked) (hstart : s.pc ≠ .start) (hexited : s.pc ≠ .exited)
    (hnot : s.pc ≠ .notRunning) : ∃ t, machine.Reaches threadAlone s t ∧ t.pc = .loopHead := by
  have hinv := reachable_parseInv h.formats.reachable h.formats.whole
  have hth := (reachable_poolInv h.formats.reachable).thread
  have hbatch (hpc : inBatch s.pc = true ∨ s.pc = .loopHead) :
      ∃ t, machine.Reaches threadAlone s t ∧ t.pc = .loopHead := by
    obtain ⟨t, hst, -, ht⟩ := h.batch_done hpc
    exact ⟨t, hst, ht⟩
  have hswap (hpc : s.pc = .lock ∨ s.pc = .waiting) :
      ∃ t, machine.Reaches threadAlone s t ∧ t.pc = .loopHead := by
    obtain ⟨t, hst, hswapped, -⟩ := h.swaps hpc
    obtain ⟨u, htu, -, hu⟩ := (h.of_reaches hst).1.batch_done hswapped.pc
    exact ⟨u, hst.trans htu, hu⟩
  cases hpc : s.pc with
  | start => exact absurd hpc hstart
  | loopHead => exact ⟨s, .refl, hpc⟩
  | lock => exact hswap (.inl hpc)
  | waiting => exact hswap (.inr hpc)
  | exited => exact absurd hpc hexited
  | notRunning => exact absurd hpc hnot
  | aborted =>
      rw [hpc] at hth
      exact hth.elim
  | fault =>
      rw [hpc] at hinv
      exact hinv.elim
  | _ => exact hbatch (.inl (by rw [hpc]; rfl))

/-- While it runs it also begins. -/
lemma Turning.toLoopHead (h : s.Turning) :
    ∃ t, machine.Reaches threadAlone s t ∧ t.pc = .loopHead := by
  by_cases hpc : s.pc = .start
  · obtain ⟨t, hst, ht⟩ : ∃ t, s.threadStep .advance = some t ∧ t.pc = .loopHead := by
      simp [hpc, h.running_eq]
    exact ⟨t, .single ⟨_, rfl⟩ (show machine.step s (.thread .advance) = some t from hst), ht⟩
  · exact h.toUnlocked.toLoopHead hpc h.ne_exited h.ne_notRunning

/-- **The sink drains**: from every state in which it turns, all that was appended gets
formatted. -/
theorem Turning.flushes (h : s.Turning) :
    ∃ t, machine.Reaches threadAlone s t ∧ t.pc = .loopHead ∧ t.queuedBlocks = [] := by
  obtain ⟨t, hst, ht⟩ := h.toLoopHead
  have hturning := h.of_reaches hst
  obtain ⟨u, htu, hu, hempty, -⟩ := hturning.round ht
  obtain ⟨v, huv, hv, -, -, hqueued⟩ := (hturning.of_reaches htu).round hu
  exact ⟨v, (hst.trans htu).trans huv, hv, hqueued hempty⟩

/-- **A full sink makes room**: from every state in which the sink turns, `append` finds a
buffer. -/
theorem Turning.makes_room (h : s.Turning) :
    ∃ t, machine.Reaches threadAlone s t ∧
      ∀ src name len, (t.append src name len).app ≠ .outside := by
  obtain ⟨t, hst, ht⟩ := h.toLoopHead
  have hturning := h.of_reaches hst
  obtain ⟨u, htu, -, -, hnext, -⟩ := hturning.round ht
  have hturning' := hturning.of_reaches htu
  obtain ⟨cur, hcur⟩ := (reachable_poolInv hturning'.formats.reachable).current
  refine ⟨u, hst.trans htu, fun src name len => ?_⟩
  cases hn : u.nextBuffer with
  | none => exact absurd hn hnext
  | some next =>
      by_cases hfits : len + sizeofThreadCheckPoint < cur.avail
      · simp [append, hcur, hfits, beginBlock]
      · simp [append, hcur, hfits, hn, beginBlock]

end Sink

end ConstexprFmtStr
