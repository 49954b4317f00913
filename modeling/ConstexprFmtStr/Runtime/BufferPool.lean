import Mathlib.Tactic
import ConstexprFmtStr.Runtime.SinkLogger

/-!
The pool of `SinkBuffer`s and its bound.

* `Sink.AppenderStep`, `Sink.ThreadStep`: the steps of the appender and of the sink thread, one
  for each way through `append` and `threadFunc`.
* `Sink.Moves`: what a step may do to the pool: move buffers between places, drop some, and
  put new ones in with fresh identities. Every step is of this form (`appenderStep_moves`,
  `threadStep_moves`).
* `Sink.PoolInv`: the invariant of the double buffering, kept by every step
  (`step_poolInv`).
* `Sink.stopsLate`: the stop does not come before the first assert of the sink thread.
  `bufferPool` is about the runs in which it does not.
-/

namespace ConstexprFmtStr

open Word

namespace Sink

variable {s t : Sink}

/-! ### What the appender does -/

/-- The steps of the appender, one for each way through `append`. -/
inductive AppenderStep (s : Sink) : AppenderAct → Sink → Prop
  | append {src len : ℕ} {name : List UInt8} (happ : s.app = .outside)
      (hname : name.length < 16 ∧ 0 ∉ name) (hlen : len ≤ stagingBufferSize) :
      AppenderStep s (.append src name len) (s.append src name len)
  | count {src len : ℕ} {name : List UInt8} {cur : SinkBuffer}
      (happ : s.app = .counting src name len) (hcur : s.currentBuffer = some cur) :
      AppenderStep s .advance
        ({ s with newBufferCount := s.newBufferCount + 1 }.beginBlock cur src name len)
  | copy {block : Block} {remaining : ℕ} {bytes : List UInt8} {cur : SinkBuffer}
      (happ : s.app = .copying block remaining) (hpos : 0 < remaining)
      (hbytes : bytes.length = min releaseThreshold remaining)
      (hcur : s.currentBuffer = some cur) (hroom : bytes.length < cur.avail) :
      AppenderStep s (.chunk bytes) { s with
        currentBuffer := some (cur.write bytes)
        app := .copying { block with bytes := block.bytes ++ bytes } (remaining - bytes.length) }
  | copyFails {block : Block} {remaining : ℕ} {bytes : List UInt8} {cur : SinkBuffer}
      (happ : s.app = .copying block remaining)
      (hbytes : bytes.length = min releaseThreshold remaining)
      (hcur : s.currentBuffer = some cur) (hroom : ¬bytes.length < cur.avail) :
      AppenderStep s (.chunk bytes) { s with app := .aborted }
  | finish {block : Block} (happ : s.app = .copying block 0) :
      AppenderStep s .advance { s with
        currentBuffer := s.currentBuffer.map fun cur =>
          { cur with blocks := cur.blocks ++ [block] }
        app := .outside
        appended := s.appended ++ [block] }
  | crash {a : AppenderAct} (hcur : s.currentBuffer = none) :
      AppenderStep s a { s with app := .crashed }

/-- There are no other steps. -/
lemma appenderStep_cases {a : AppenderAct} (ht : s.appenderStep a = some t) :
    AppenderStep s a t := by
  cases happ : s.app with
  | outside =>
      cases a <;> simp only [appenderStep, happ, Option.ite_none_right_eq_some,
        Option.some.injEq, reduceCtorEq] at ht
      obtain ⟨⟨hname, hlen⟩, rfl⟩ := ht
      exact .append happ hname hlen
  | counting src name len =>
      cases a <;> simp only [appenderStep, happ, reduceCtorEq] at ht
      split at ht
      case h_1 hcur =>
        cases ht
        exact .crash hcur
      case h_2 cur hcur =>
        cases ht
        exact .count happ hcur
  | copying block remaining =>
      cases a with
      | append src name len => simp [appenderStep, happ] at ht
      | chunk bytes =>
          simp only [appenderStep, happ, Option.ite_none_right_eq_some] at ht
          obtain ⟨⟨hpos, hbytes⟩, ht⟩ := ht
          split at ht
          case h_1 hcur =>
            cases ht
            exact .crash hcur
          case h_2 cur hcur =>
            split_ifs at ht with hroom <;> cases ht
            · exact .copy happ hpos hbytes hcur hroom
            · exact .copyFails happ hbytes hcur hroom
      | advance =>
          simp only [appenderStep, happ, Option.ite_none_right_eq_some, Option.some.injEq] at ht
          obtain ⟨rfl, rfl⟩ := ht
          exact .finish happ
  | aborted => cases a <;> simp [appenderStep, happ] at ht
  | crashed => cases a <;> simp [appenderStep, happ] at ht

/-! ### What the sink thread does -/

/-- The steps of the sink thread, one for each way through `threadFunc`. -/
inductive ThreadStep (s : Sink) : SinkThreadAct → Sink → Prop
  | start (hpc : s.pc = .start) (hrun : s.running = true) :
      ThreadStep s .advance { s with
        newBuffer1 := some (.new s.nextId)
        newBuffer2 := some (.new (s.nextId + 1))
        nextId := s.nextId + 2
        pc := .loopHead }
  | notRunning (hpc : s.pc = .start) (hrun : s.running = false) :
      ThreadStep s .advance { s with pc := .notRunning }
  | loopHead (hpc : s.pc = .loopHead) :
      ThreadStep s .advance { s with pc :=
        if s.running then if s.loopAsserts then .lock else .aborted else .exited }
  | wait (hpc : s.pc = .lock) (happ : s.app = .outside) (hempty : s.buffers = []) :
      ThreadStep s .advance { s with pc := .waiting }
  | swap {a : SinkThreadAct} {timeout : Bool} (hpc : s.pc = .lock ∨ s.pc = .waiting)
      (happ : s.app = .outside) : ThreadStep s a (s.swapSection timeout)
  | buffer {i : ℕ} (hpc : s.pc = .buffer i) :
      ThreadStep s .advance { s with pc :=
        match s.buffersToWrite[i]? with
        | some b => .parse i 0 b.length 0
        | none => .resize }
  | parseHeader {i k : ℕ} {bufLen : ℤ} {pos : ℕ} {b : SinkBuffer}
      (hpc : s.pc = .parse i k bufLen pos) (hb : s.buffersToWrite[i]? = some b)
      (hpos : 0 < bufLen) : ThreadStep s .advance (s.parseHeader i k bufLen pos b)
  | endBuffer {i k : ℕ} {bufLen : ℤ} {pos : ℕ} {b : SinkBuffer}
      (hpc : s.pc = .parse i k bufLen pos) (hb : s.buffersToWrite[i]? = some b)
      (hpos : ¬0 < bufLen) : ThreadStep s .advance { s with pc := .buffer (i + 1) }
  | parseEntry {i k : ℕ} {bufLen : ℤ} {hdr pos : ℕ} {remaining : ℤ} {b : SinkBuffer}
      (hpc : s.pc = .entries i k bufLen hdr pos remaining)
      (hb : s.buffersToWrite[i]? = some b) (hrem : 0 < remaining) :
      ThreadStep s .advance (s.parseEntry i k bufLen hdr pos remaining b)
  | parseNext {i k : ℕ} {bufLen : ℤ} {hdr pos : ℕ} {remaining : ℤ} {b : SinkBuffer}
      (hpc : s.pc = .entries i k bufLen hdr pos remaining)
      (hb : s.buffersToWrite[i]? = some b) (hrem : ¬0 < remaining) :
      ThreadStep s .advance (s.parseNext i k bufLen hdr pos b)
  | resize (hpc : s.pc = .resize) :
      ThreadStep s .advance { s with
        buffersToWrite := s.buffersToWrite.take 2, pc := .resetCount }
  | resetCount (hpc : s.pc = .resetCount) :
      ThreadStep s .advance { s with newBufferCount := 0, pc := .refill1 }
  | refill1 {b : SinkBuffer} {rest : List SinkBuffer} (hpc : s.pc = .refill1)
      (hrefill : refill s.newBuffer1 s.buffersToWrite = some (b, rest)) :
      ThreadStep s .advance { s with
        newBuffer1 := some b, buffersToWrite := rest, pc := .refill2 }
  | refill2 {b : SinkBuffer} {rest : List SinkBuffer} (hpc : s.pc = .refill2)
      (hrefill : refill s.newBuffer2 s.buffersToWrite = some (b, rest)) :
      ThreadStep s .advance { s with
        newBuffer2 := some b, buffersToWrite := rest, pc := .clear }
  | refillFails (hpc : s.pc = .refill1 ∧ refill s.newBuffer1 s.buffersToWrite = none ∨
        s.pc = .refill2 ∧ refill s.newBuffer2 s.buffersToWrite = none) :
      ThreadStep s .advance { s with pc := .aborted }
  | clear (hpc : s.pc = .clear) :
      ThreadStep s .advance { s with buffersToWrite := [], pc := .loopHead }

/-- There are no other steps. -/
lemma threadStep_cases {a : SinkThreadAct} (ht : s.threadStep a = some t) : ThreadStep s a t := by
  cases hpc : s.pc with
  | start =>
      cases a <;> simp only [threadStep, hpc, Option.some.injEq, reduceCtorEq] at ht
      split_ifs at ht with hrun <;> subst ht
      · exact .start hpc hrun
      · exact .notRunning hpc (Bool.eq_false_iff.mpr hrun)
  | loopHead =>
      cases a <;> simp only [threadStep, hpc, Option.some.injEq, reduceCtorEq] at ht
      subst ht
      exact .loopHead hpc
  | lock =>
      cases a <;> cases happ : s.app <;>
        simp only [threadStep, hpc, happ, Option.some.injEq, reduceCtorEq] at ht
      rw [← happ] at ht
      split_ifs at ht with hempty <;> subst ht
      · exact .wait hpc happ hempty
      · exact .swap (.inl hpc) happ
  | waiting =>
      cases a <;> cases happ : s.app <;>
        simp only [threadStep, hpc, happ, Option.some.injEq, reduceCtorEq] at ht
      subst ht
      exact .swap (.inr hpc) happ
  | buffer i =>
      cases a <;> simp only [threadStep, hpc, Option.some.injEq, reduceCtorEq] at ht
      subst ht
      exact .buffer hpc
  | parse i k bufLen pos =>
      cases a <;> simp only [threadStep, hpc, Option.map_eq_some_iff, reduceCtorEq] at ht
      obtain ⟨b, hb, rfl⟩ := ht
      split_ifs with hpos
      · exact .parseHeader hpc hb hpos
      · exact .endBuffer hpc hb hpos
  | entries i k bufLen hdr pos remaining =>
      cases a <;> simp only [threadStep, hpc, Option.map_eq_some_iff, reduceCtorEq] at ht
      obtain ⟨b, hb, rfl⟩ := ht
      split_ifs with hrem
      · exact .parseEntry hpc hb hrem
      · exact .parseNext hpc hb hrem
  | resize =>
      cases a <;> simp only [threadStep, hpc, Option.some.injEq, reduceCtorEq] at ht
      subst ht
      exact .resize hpc
  | resetCount =>
      cases a <;> simp only [threadStep, hpc, Option.some.injEq, reduceCtorEq] at ht
      subst ht
      exact .resetCount hpc
  | refill1 =>
      cases a <;> simp only [threadStep, hpc, Option.some.injEq, reduceCtorEq] at ht
      cases hrefill : refill s.newBuffer1 s.buffersToWrite with
      | none =>
          simp only [hrefill] at ht
          subst ht
          exact .refillFails (.inl ⟨hpc, hrefill⟩)
      | some r =>
          simp only [hrefill] at ht
          subst ht
          exact .refill1 hpc hrefill
  | refill2 =>
      cases a <;> simp only [threadStep, hpc, Option.some.injEq, reduceCtorEq] at ht
      cases hrefill : refill s.newBuffer2 s.buffersToWrite with
      | none =>
          simp only [hrefill] at ht
          subst ht
          exact .refillFails (.inr ⟨hpc, hrefill⟩)
      | some r =>
          simp only [hrefill] at ht
          subst ht
          exact .refill2 hpc hrefill
  | clear =>
      cases a <;> simp only [threadStep, hpc, Option.some.injEq, reduceCtorEq] at ht
      subst ht
      exact .clear hpc
  | exited => cases a <;> simp [threadStep, hpc] at ht
  | notRunning => cases a <;> simp [threadStep, hpc] at ht
  | aborted => cases a <;> simp [threadStep, hpc] at ht
  | fault => cases a <;> simp [threadStep, hpc] at ht

/-! ### Buffers change places -/

/-- In how many places the buffer `a` is held. -/
def holders (s : Sink) (a : ℕ) : ℕ := (s.held.map SinkBuffer.id).count a

/-- From `s` to `t` buffers change places or are dropped, and the new ones have the identities
from `s.nextId` on. -/
structure Moves (s t : Sink) : Prop where
  nextId_le : s.nextId ≤ t.nextId
  holders_le : ∀ a, t.holders a ≤ s.holders a + if s.nextId ≤ a ∧ a < t.nextId then 1 else 0
  live_le : t.live ≤ s.live + (t.nextId - s.nextId)

/-- Buffers change places or are dropped, and none is new. -/
lemma Moves.of_le (hid : t.nextId = s.nextId) (hholders : ∀ a, t.holders a ≤ s.holders a)
    (hlive : t.live ≤ s.live) : Moves s t :=
  ⟨hid.ge, fun a => (hholders a).trans (Nat.le_add_right _ _), hlive.trans (Nat.le_add_right _ _)⟩

/-- The same buffers are held in the same places. -/
lemma Moves.of_held (hid : t.nextId = s.nextId)
    (hheld : t.held.map SinkBuffer.id = s.held.map SinkBuffer.id) : Moves s t := by
  refine .of_le hid (fun a => ?_) ?_
  · rw [holders, holders, hheld]
  · have hlen := congrArg List.length hheld
    rw [List.length_map, List.length_map] at hlen
    exact hlen.le

lemma Moves.trans {u : Sink} (h : Moves s t) (h' : Moves t u) : Moves s u where
  nextId_le := h.nextId_le.trans h'.nextId_le
  holders_le a := by
    have h₁ := h.holders_le a
    have h₂ := h'.holders_le a
    have := h.nextId_le
    have := h'.nextId_le
    split_ifs at h₁ h₂ ⊢ <;> omega
  live_le := by
    have := h.nextId_le
    have := h'.nextId_le
    have := h.live_le
    have := h'.live_le
    omega

lemma moves_beginBlock {cur : SinkBuffer} (hcur : s.currentBuffer = some cur) (src : ℕ)
    (name : List UInt8) (len : ℕ) : Moves s (s.beginBlock cur src name len) :=
  .of_held rfl (by simp [held, beginBlock, hcur, SinkBuffer.write])

/-- The four ways through the critical section of `append`. -/
lemma append_cases {cur : SinkBuffer} (hcur : s.currentBuffer = some cur) (src : ℕ)
    (name : List UInt8) (len : ℕ) :
    (len + sizeofThreadCheckPoint < cur.avail ∧
        s.append src name len = s.beginBlock cur src name len) ∨
      (∃ next, s.nextBuffer = some next ∧ s.append src name len =
        { s with buffers := s.buffers ++ [cur], nextBuffer := none }.beginBlock next src
          name len) ∨
      (s.nextBuffer = none ∧ s.newBufferCount < supplementarySinkBufferMaximumSize ∧
        s.append src name len = { s with
          buffers := s.buffers ++ [cur]
          currentBuffer := some (.new s.nextId)
          nextId := s.nextId + 1
          app := .counting src name len }) ∨
      s.append src name len = s := by
  by_cases hfits : len + sizeofThreadCheckPoint < cur.avail
  · exact .inl ⟨hfits, by simp [append, hcur, hfits]⟩
  cases hnext : s.nextBuffer with
  | some next => exact .inr (.inl ⟨next, rfl, by simp [append, hcur, hfits, hnext]⟩)
  | none =>
      by_cases hcount : s.newBufferCount < supplementarySinkBufferMaximumSize
      · exact .inr (.inr (.inl ⟨rfl, hcount, by simp [append, hcur, hfits, hnext, hcount]⟩))
      · exact .inr (.inr (.inr (by simp [append, hcur, hfits, hnext, hcount])))

/-- Entering `append`: the current buffer may go to the queue, with the next one or a new one
taking its place. -/
lemma moves_append (s : Sink) (src : ℕ) (name : List UInt8) (len : ℕ) :
    Moves s (s.append src name len) := by
  cases hcur : s.currentBuffer with
  | none => exact .of_held (by simp [append, hcur]) (by simp [append, held, hcur])
  | some cur =>
      rcases append_cases hcur src name len with ⟨-, heq⟩ | ⟨next, hnext, heq⟩ |
        ⟨hnext, -, heq⟩ | heq <;> rw [heq]
      · exact moves_beginBlock hcur src name len
      · refine .of_le rfl (fun a => ?_) ?_
        · simp [holders, held, beginBlock, hcur, hnext, SinkBuffer.write, List.count_cons]
          omega
        · simp [live, held, beginBlock, hcur, hnext]
          omega
      · refine ⟨Nat.le_succ _, fun a => ?_, ?_⟩
        · simp [holders, held, hcur, hnext, SinkBuffer.new, List.count_cons]
          split_ifs <;> omega
        · simp [live, held, hcur, hnext]
          omega
      · exact .of_held rfl rfl

/-- The swap section only moves buffers. -/
lemma moves_swapSection (s : Sink) (timeout : Bool) : Moves s (s.swapSection timeout) := by
  cases hcur : s.currentBuffer with
  | none => exact .of_held (by simp [swapSection, hcur]) (by simp [swapSection, held, hcur])
  | some cur =>
      have hqueue : Moves s (s.queueCurrent cur timeout) := by
        rw [queueCurrent]
        split_ifs
        · refine .of_le rfl (fun a => ?_) ?_
          · simp [holders, held, hcur, List.count_cons]
            omega
          · simp [live, held, hcur]
            omega
        · exact .of_held rfl rfl
      have hswap (u : Sink) : Moves u u.swapBuffers :=
        .of_le rfl (fun a => by simp [holders, held, swapBuffers]; omega)
          (by simp [live, held, swapBuffers]; omega)
      have hrefill (u : Sink) : Moves u u.refillNext := by
        cases hnext : u.nextBuffer with
        | some next => exact .of_held (by simp [refillNext, hnext]) (by simp [refillNext, hnext])
        | none =>
            refine .of_le (by simp [refillNext, hnext]) (fun a => ?_) ?_
            · simp [holders, held, refillNext, hnext]
              omega
            · simp [live, held, refillNext, hnext]
              omega
      have hall := (hqueue.trans (hswap _)).trans (hrefill _)
      simp only [swapSection, hcur]
      exact ⟨hall.nextId_le, hall.holders_le, hall.live_le⟩

/-- A refill moves the last of `buffersToWrite` to the spare's place. -/
lemma moves_refill {spare : Option SinkBuffer} {toWrite rest : List SinkBuffer} {b : SinkBuffer}
    (h : refill spare toWrite = some (b, rest)) (a : ℕ) :
    ((b :: rest).map SinkBuffer.id).count a =
        ((spare.toList ++ toWrite).map SinkBuffer.id).count a ∧
      (b :: rest).length = (spare.toList ++ toWrite).length := by
  cases spare with
  | some b' =>
      simp only [refill, Option.some.injEq, Prod.mk.injEq] at h
      obtain ⟨rfl, rfl⟩ := h
      simp
  | none =>
      simp only [refill, Option.map_eq_some_iff, Prod.mk.injEq] at h
      obtain ⟨last, hlast, rfl, rfl⟩ := h
      obtain ⟨init, rfl⟩ := List.getLast?_eq_some_iff.mp hlast
      simp [SinkBuffer.reset, List.count_cons]

/-- Parsing moves nothing. -/
lemma moves_parseEntry (s : Sink) (i k : ℕ) (bufLen : ℤ) (hdr pos : ℕ) (remaining : ℤ)
    (b : SinkBuffer) : Moves s (s.parseEntry i k bufLen hdr pos remaining b) := by
  simp only [parseEntry]
  split
  · split
    · split_ifs <;> exact .of_held rfl rfl
    · exact .of_held rfl rfl
  · exact .of_held rfl rfl

/-- A step of the appender moves buffers, or puts a new one in. -/
lemma appenderStep_moves {a : AppenderAct} (ht : s.appenderStep a = some t) : Moves s t := by
  cases appenderStep_cases ht with
  | append => exact moves_append s _ _ _
  | count _ hcur => exact .of_held rfl (by simp [held, beginBlock, hcur, SinkBuffer.write])
  | copy _ _ _ hcur => exact .of_held rfl (by simp [held, hcur, SinkBuffer.write])
  | finish =>
      refine .of_held rfl ?_
      cases hcur : s.currentBuffer <;> simp [held, hcur]
  | _ => exact .of_held rfl rfl

/-- A refilled spare comes from the batch, or was there. -/
lemma moves_refill1 {b : SinkBuffer} {rest : List SinkBuffer} {pc : SinkPc}
    (h : refill s.newBuffer1 s.buffersToWrite = some (b, rest)) :
    Moves s { s with newBuffer1 := some b, buffersToWrite := rest, pc := pc } := by
  refine .of_le rfl (fun a => ?_) ?_
  · have := (moves_refill h a).1
    simp [holders, held, List.count_cons] at this ⊢
    omega
  · have := (moves_refill h 0).2
    simp [live, held] at this ⊢
    omega

lemma moves_refill2 {b : SinkBuffer} {rest : List SinkBuffer} {pc : SinkPc}
    (h : refill s.newBuffer2 s.buffersToWrite = some (b, rest)) :
    Moves s { s with newBuffer2 := some b, buffersToWrite := rest, pc := pc } := by
  refine .of_le rfl (fun a => ?_) ?_
  · have := (moves_refill h a).1
    simp [holders, held, List.count_cons] at this ⊢
    omega
  · have := (moves_refill h 0).2
    simp [live, held] at this ⊢
    omega

/-- So does a step of the sink thread, which puts in the two spares at its start. -/
lemma threadStep_moves {a : SinkThreadAct} (ht : s.threadStep a = some t)
    (hstart : s.pc = .start → s.newBuffer1 = none ∧ s.newBuffer2 = none) : Moves s t := by
  cases threadStep_cases ht with
  | start hpc =>
      obtain ⟨h1, h2⟩ := hstart hpc
      refine ⟨Nat.le_add_right _ _, fun a => ?_, ?_⟩
      · simp [holders, held, h1, h2, SinkBuffer.new, List.count_cons]
        split_ifs <;> omega
      · simp [live, held, h1, h2]
        omega
  | swap => exact moves_swapSection s _
  | parseEntry => exact moves_parseEntry ..
  | resize =>
      refine .of_le rfl (fun a => ?_) ?_
      · have := (List.take_sublist 2 s.buffersToWrite).map SinkBuffer.id |>.count_le a
        simp [holders, held] at this ⊢
        omega
      · simp [live, held]
  | refill1 _ hrefill => exact moves_refill1 hrefill
  | refill2 _ hrefill => exact moves_refill2 hrefill
  | clear =>
      refine .of_le rfl (fun a => ?_) ?_
      · simp [holders, held]
      · simp [live, held]
  | _ => exact .of_held rfl rfl

/-! ### The invariant of the double buffering -/

/-- How many of the two spares have been given away. -/
def sparesGiven (s : Sink) : ℕ :=
  (if s.newBuffer1 = none then 1 else 0) + if s.newBuffer2 = none then 1 else 0

/-- What holds of the current buffer at each point of `append`. -/
def AppenderInv (s : Sink) : AppenderPc → Prop
  | .outside => True
  | .counting _ name len =>
      name.length < 16 ∧ len ≤ stagingBufferSize ∧ ∃ b, s.currentBuffer = some b ∧ b.data = []
  | .copying _ remaining => ∃ b, s.currentBuffer = some b ∧ b.length + remaining < largeBuffer
  | .aborted => False
  | .crashed => False

/-- What holds of the spares and of the batch at each point of `threadFunc`. -/
def ThreadInv (s : Sink) : SinkPc → Prop
  | .start => s.newBuffer1 = none ∧ s.newBuffer2 = none ∧ s.buffersToWrite = []
  | .loopHead => s.sparesGiven = 0 ∧ s.buffersToWrite = []
  | .lock => s.sparesGiven = 0 ∧ s.buffersToWrite = []
  | .waiting => s.sparesGiven = 0 ∧ s.buffersToWrite = []
  | .refill2 => s.newBuffer1 ≠ none ∧ s.sparesGiven ≤ s.buffersToWrite.length
  | .clear => s.sparesGiven = 0
  | .exited => True
  | .notRunning => True
  | .aborted => False
  | _ => s.sparesGiven ≤ s.buffersToWrite.length

/-- **The invariant of the buffer pool.** -/
structure PoolInv (s : Sink) : Prop where
  current : ∃ b, s.currentBuffer = some b
  next_empty : ∀ b, s.nextBuffer = some b → b.data = []
  next_none : s.nextBuffer = none → s.buffers ≠ []
  spares_empty : ∀ b, s.newBuffer1 = some b ∨ s.newBuffer2 = some b → b.data = []
  places : ∀ a, s.holders a ≤ if a < s.nextId then 1 else 0
  appender : s.AppenderInv s.app
  thread : s.ThreadInv s.pc

/-- After moves a buffer is still in one place only. -/
lemma PoolInv.places_of_moves (h : s.PoolInv) (hm : Moves s t) (a : ℕ) :
    t.holders a ≤ if a < t.nextId then 1 else 0 := by
  have h₁ := h.places a
  have h₂ := hm.holders_le a
  have := hm.nextId_le
  split_ifs at h₁ h₂ ⊢ <;> omega

/-- The start of a block in a buffer with room for it. -/
lemma appenderInv_beginBlock {cur : SinkBuffer} {src len : ℕ} {name : List UInt8}
    (hname : name.length < 16) (hroom : len + sizeofThreadCheckPoint < cur.avail) :
    (s.beginBlock cur src name len).AppenderInv (.copying ⟨src, name, []⟩ len) := by
  refine ⟨_, rfl, ?_⟩
  have hlen := length_threadCheckPoint (hname.le.trans (by norm_num)) len
  simp only [SinkBuffer.avail, SinkBuffer.length, SinkBuffer.write, List.length_append,
    hlen] at hroom ⊢
  omega

lemma room_of_empty {cur : SinkBuffer} (hcur : cur.data = []) {len : ℕ}
    (hlen : len ≤ stagingBufferSize) : len + sizeofThreadCheckPoint < cur.avail := by
  simp [SinkBuffer.avail, SinkBuffer.length, hcur, largeBuffer, sizeofThreadCheckPoint]
  norm_num [stagingBufferSize] at hlen
  omega

/-- Entering `append` keeps the invariant. -/
lemma poolInv_append (h : s.PoolInv) {src len : ℕ} {name : List UInt8}
    (hname : name.length < 16) (hlen : len ≤ stagingBufferSize) :
    (s.append src name len).PoolInv := by
  obtain ⟨cur, hcur⟩ := h.current
  have hplaces := h.places_of_moves (moves_append s src name len)
  rcases append_cases hcur src name len with ⟨hfits, heq⟩ | ⟨next, hnext, heq⟩ |
    ⟨hnext, -, heq⟩ | heq <;> rw [heq] at hplaces ⊢
  · exact ⟨⟨_, rfl⟩, h.next_empty, h.next_none, h.spares_empty, hplaces,
      appenderInv_beginBlock hname hfits, h.thread⟩
  · exact ⟨⟨_, rfl⟩, fun b hb => by simp [beginBlock] at hb, fun _ => by simp [beginBlock],
      h.spares_empty, hplaces,
      appenderInv_beginBlock hname (room_of_empty (h.next_empty next hnext) hlen), h.thread⟩
  · exact ⟨⟨_, rfl⟩, fun b hb => by simp [hnext] at hb, fun _ => by simp, h.spares_empty,
      hplaces, ⟨hname, hlen, _, rfl, rfl⟩, h.thread⟩
  · exact h

/-- A step of the appender keeps the invariant. -/
theorem appenderStep_poolInv (h : s.PoolInv) {a : AppenderAct} (ht : s.appenderStep a = some t) :
    t.PoolInv := by
  have hplaces := h.places_of_moves (appenderStep_moves ht)
  have hinv := h.appender
  cases appenderStep_cases ht with
  | append happ hname hlen => exact poolInv_append h hname.1 hlen
  | count happ hcur =>
      rw [happ] at hinv
      obtain ⟨hname, hlen, b, hb, hempty⟩ := hinv
      obtain rfl := Option.some.inj (hcur.symm.trans hb)
      exact ⟨⟨_, rfl⟩, h.next_empty, h.next_none, h.spares_empty, hplaces,
        appenderInv_beginBlock hname (room_of_empty hempty hlen), h.thread⟩
  | copy happ hpos hbytes hcur =>
      rw [happ] at hinv
      obtain ⟨b, hb, hroom⟩ := hinv
      obtain rfl := Option.some.inj (hcur.symm.trans hb)
      refine ⟨⟨_, rfl⟩, h.next_empty, h.next_none, h.spares_empty, hplaces, ⟨_, rfl, ?_⟩,
        h.thread⟩
      simp only [SinkBuffer.length, SinkBuffer.write, List.length_append] at hroom ⊢
      omega
  | copyFails happ hbytes hcur hfull =>
      rw [happ] at hinv
      obtain ⟨b, hb, hroom⟩ := hinv
      obtain rfl := Option.some.inj (hcur.symm.trans hb)
      rw [SinkBuffer.avail] at hfull
      omega
  | finish happ =>
      rw [happ] at hinv
      obtain ⟨b, hb, -⟩ := hinv
      exact ⟨⟨_, by rw [hb]; rfl⟩, h.next_empty, h.next_none, h.spares_empty, hplaces,
        trivial, h.thread⟩
  | crash hcur =>
      obtain ⟨cur, hcur'⟩ := h.current
      rw [hcur] at hcur'
      cases hcur'

/-! ### The sink thread -/

/-- Moving on without touching a buffer. -/
lemma PoolInv.of_pc (h : s.PoolInv) {pc : SinkPc} (hpc : s.ThreadInv pc) :
    PoolInv { s with pc := pc } :=
  ⟨h.current, h.next_empty, h.next_none, h.spares_empty, h.places, h.appender,
    by cases pc <;> exact hpc⟩

lemma poolInv_parseEntry (h : s.PoolInv) (hle : s.sparesGiven ≤ s.buffersToWrite.length)
    {i k : ℕ} {bufLen : ℤ} {hdr pos : ℕ} {remaining : ℤ} {b : SinkBuffer} :
    (s.parseEntry i k bufLen hdr pos remaining b).PoolInv := by
  simp only [parseEntry]
  split
  · split
    · split_ifs
      · exact ⟨h.current, h.next_empty, h.next_none, h.spares_empty, h.places, h.appender, hle⟩
      · exact h.of_pc hle
    · exact h.of_pc hle
  · exact h.of_pc hle

/-- With nothing given away both spares are there. -/
lemma spares_of_sparesGiven (h : s.sparesGiven = 0) :
    (∃ b, s.newBuffer1 = some b) ∧ ∃ b, s.newBuffer2 = some b := by
  rw [sparesGiven] at h
  cases h1 : s.newBuffer1 <;> cases h2 : s.newBuffer2 <;> simp [h1, h2] at h ⊢

/-- What the swap section does when both spares are there and the last batch is done. -/
lemma swapSection_eq {cur b1 b2 : SinkBuffer} (hcur : s.currentBuffer = some cur)
    (hb1 : s.newBuffer1 = some b1) (hb2 : s.newBuffer2 = some b2)
    (hbatch : s.buffersToWrite = []) (timeout : Bool) :
    s.swapSection timeout = { s with
      currentBuffer := some (if worthSwapping cur timeout then b1 else cur)
      newBuffer1 := if worthSwapping cur timeout then none else some b1
      nextBuffer := some (s.nextBuffer.getD b2)
      newBuffer2 := if s.nextBuffer = none then none else some b2
      buffers := []
      buffersToWrite := s.buffers ++ if worthSwapping cur timeout then [cur] else []
      pc := if s.buffers ++ (if worthSwapping cur timeout then [cur] else []) = [] then .loopHead
        else .buffer 0 } := by
  cases hworth : worthSwapping cur timeout <;> cases hnext : s.nextBuffer <;>
    simp [swapSection, hcur, queueCurrent, hworth, swapBuffers, refillNext, hnext, hbatch, hb1,
      hb2]

/-- The swap section takes the queue, gives away at most the spares it has, and leaves at least
as many buffers in the batch. -/
lemma poolInv_swapSection (h : s.PoolInv) (happ : s.app = .outside)
    (hspares : s.sparesGiven = 0) (hbatch : s.buffersToWrite = []) (timeout : Bool) :
    (s.swapSection timeout).PoolInv := by
  have hplaces := h.places_of_moves (moves_swapSection s timeout)
  obtain ⟨cur, hcur⟩ := h.current
  obtain ⟨⟨b1, hb1⟩, b2, hb2⟩ := spares_of_sparesGiven hspares
  have he1 := h.spares_empty b1 (.inl hb1)
  have he2 := h.spares_empty b2 (.inr hb2)
  have hnone := h.next_none
  rw [swapSection_eq hcur hb1 hb2 hbatch] at hplaces ⊢
  refine ⟨⟨_, rfl⟩, fun b hb => ?_, fun hb => by simp at hb, fun b hb => ?_, hplaces, ?_, ?_⟩
  · cases hnext : s.nextBuffer with
    | none => simp [hnext] at hb; rw [← hb, he2]
    | some next => simp [hnext] at hb; rw [← hb, h.next_empty next hnext]
  · simp only at hb
    rcases hb with hb | hb <;> split_ifs at hb <;> cases hb
    · exact he1
    · exact he2
  · simp only [happ]
    trivial
  · -- each spare given away has put one buffer into the batch
    have hpos : s.nextBuffer = none → 1 ≤ s.buffers.length :=
      fun hnext => List.length_pos_iff.mpr (hnone hnext)
    cases hworth : worthSwapping cur timeout <;> cases hnext : s.nextBuffer with
    | none =>
        have hlen := hpos hnext
        have hne := hnone hnext
        simp [hne, ThreadInv, sparesGiven]
        omega
    | some next =>
        by_cases hempty : s.buffers = [] <;> simp [hempty, ThreadInv, sparesGiven]

/-- A refill takes a spare that is there, or empties the last buffer of the batch. -/
lemma refill_some {spare : Option SinkBuffer} {toWrite rest : List SinkBuffer} {b : SinkBuffer}
    (h : refill spare toWrite = some (b, rest)) :
    toWrite.length = rest.length + (if spare = none then 1 else 0) ∧
      (spare = some b ∨ b.data = [] ∧ b.blocks = []) ∧ rest ⊆ toWrite := by
  cases spare with
  | some b' =>
      simp only [refill, Option.some.injEq, Prod.mk.injEq] at h
      obtain ⟨rfl, rfl⟩ := h
      exact ⟨rfl, .inl rfl, List.Subset.refl _⟩
  | none =>
      simp only [refill, Option.map_eq_some_iff, Prod.mk.injEq] at h
      obtain ⟨last, hlast, rfl, rfl⟩ := h
      obtain ⟨init, rfl⟩ := List.getLast?_eq_some_iff.mp hlast
      exact ⟨by simp, .inr ⟨rfl, rfl⟩, List.dropLast_subset _⟩

/-- It fails when there is neither, which is not so while the batch holds a buffer for every spare
given away. -/
lemma refill_ne_none {spare : Option SinkBuffer} (hle : s.sparesGiven ≤ s.buffersToWrite.length)
    (hspare : spare = s.newBuffer1 ∨ spare = s.newBuffer2) :
    refill spare s.buffersToWrite ≠ none := by
  cases hs : spare with
  | some b => exact Option.some_ne_none _
  | none =>
      have hne : s.buffersToWrite ≠ [] := by
        rw [hs] at hspare
        refine List.length_pos_iff.mp (lt_of_lt_of_le ?_ hle)
        rw [sparesGiven]
        rcases hspare with h | h <;> rw [if_pos h.symm] <;> omega
      rw [refill, ne_eq, Option.map_eq_none_iff, List.getLast?_eq_none_iff]
      exact hne

/-- A step of the sink thread keeps the invariant. -/
theorem threadStep_poolInv (h : s.PoolInv) {a : SinkThreadAct} (ht : s.threadStep a = some t) :
    t.PoolInv := by
  have hth := h.thread
  have hplaces : ∀ a, t.holders a ≤ if a < t.nextId then 1 else 0 :=
    h.places_of_moves (threadStep_moves ht fun hpc => by
      rw [hpc] at hth
      exact ⟨hth.1, hth.2.1⟩)
  cases threadStep_cases ht with
  | start hpc =>
      rw [hpc] at hth
      refine ⟨h.current, h.next_empty, h.next_none, fun b hb => ?_, hplaces, h.appender, ?_⟩
      · rcases hb with hb | hb <;> cases hb <;> rfl
      · exact ⟨by simp [sparesGiven], hth.2.2⟩
  | notRunning => exact h.of_pc trivial
  | loopHead hpc =>
      rw [hpc] at hth
      obtain ⟨⟨b1, hb1⟩, b2, hb2⟩ := spares_of_sparesGiven hth.1
      have hasserts : s.loopAsserts = true := by
        simp [loopAsserts, hb1, hb2, hth.2, SinkBuffer.length, h.spares_empty b1 (.inl hb1),
          h.spares_empty b2 (.inr hb2)]
      refine h.of_pc ?_
      rw [if_pos hasserts]
      split_ifs
      · exact hth
      · trivial
  | wait hpc =>
      rw [hpc] at hth
      exact h.of_pc hth
  | swap hpc happ =>
      have hidle : s.sparesGiven = 0 ∧ s.buffersToWrite = [] := by
        rcases hpc with hpc | hpc <;> rw [hpc] at hth <;> exact hth
      exact poolInv_swapSection h happ hidle.1 hidle.2 _
  | buffer hpc =>
      rw [hpc] at hth
      refine h.of_pc ?_
      split <;> exact hth
  | parseHeader hpc =>
      rw [hpc] at hth
      refine h.of_pc ?_
      split <;> exact hth
  | endBuffer hpc =>
      rw [hpc] at hth
      exact h.of_pc hth
  | parseEntry hpc =>
      rw [hpc] at hth
      exact poolInv_parseEntry h hth
  | parseNext hpc =>
      rw [hpc] at hth
      refine h.of_pc ?_
      split <;> exact hth
  | resize hpc =>
      rw [hpc] at hth
      refine ⟨h.current, h.next_empty, h.next_none, h.spares_empty, hplaces, h.appender, ?_⟩
      have hle : s.sparesGiven ≤ 2 := by
        rw [sparesGiven]
        split_ifs <;> omega
      have : s.sparesGiven ≤ s.buffersToWrite.length := hth
      simp [ThreadInv, sparesGiven] at this hle ⊢
      omega
  | resetCount hpc =>
      rw [hpc] at hth
      exact ⟨h.current, h.next_empty, h.next_none, h.spares_empty, hplaces, h.appender, hth⟩
  | refill1 hpc hrefill =>
      rw [hpc] at hth
      have hle : s.sparesGiven ≤ s.buffersToWrite.length := hth
      obtain ⟨hlen, hb, -⟩ := refill_some hrefill
      refine ⟨h.current, h.next_empty, h.next_none, fun b' hb' => ?_, hplaces, h.appender, ?_⟩
      · rcases hb' with hb' | hb'
        · cases hb'
          exact hb.elim (fun hb => h.spares_empty _ (.inl hb)) And.left
        · exact h.spares_empty b' (.inr hb')
      · refine ⟨by simp, ?_⟩
        simp [sparesGiven] at hle ⊢
        omega
  | refill2 hpc hrefill =>
      rw [hpc] at hth
      obtain ⟨h1, hle⟩ := hth
      obtain ⟨-, hb, -⟩ := refill_some hrefill
      refine ⟨h.current, h.next_empty, h.next_none, fun b' hb' => ?_, hplaces, h.appender, ?_⟩
      · rcases hb' with hb' | hb'
        · exact h.spares_empty b' (.inl hb')
        · cases hb'
          exact hb.elim (fun hb => h.spares_empty _ (.inr hb)) And.left
      · simp [ThreadInv, sparesGiven, h1]
  | refillFails hpc =>
      rcases hpc with ⟨hpc, hfails⟩ | ⟨hpc, hfails⟩ <;> rw [hpc] at hth
      · exact absurd hfails (refill_ne_none hth (.inl rfl))
      · exact absurd hfails (refill_ne_none hth.2 (.inr rfl))
  | clear hpc =>
      rw [hpc] at hth
      exact ⟨h.current, h.next_empty, h.next_none, h.spares_empty, hplaces, h.appender, hth, rfl⟩

lemma poolInv_new : new.PoolInv where
  current := ⟨_, rfl⟩
  next_empty := fun b hb => by cases hb; rfl
  next_none := fun hb => by simp [new] at hb
  spares_empty := fun b hb => by simp [new] at hb
  places := fun a => by
    simp [holders, held, new, SinkBuffer.new, List.count_cons]
    split_ifs <;> omega
  appender := trivial
  thread := ⟨rfl, rfl, rfl⟩

theorem step_poolInv (h : s.PoolInv) {a : SinkAct} (ht : s.step a = some t) : t.PoolInv := by
  cases a with
  | appender a => exact appenderStep_poolInv h ht
  | thread a => exact threadStep_poolInv h ht
  | stop =>
      cases ht
      refine ⟨h.current, h.next_empty, h.next_none, h.spares_empty, h.places, h.appender, ?_⟩
      have hth := h.thread
      cases hpc : s.pc <;> simp only [hpc] at hth ⊢ <;> exact hth

/-- The invariant holds in every reachable state. -/
theorem reachable_poolInv (h : machine.Reachable s) : s.PoolInv :=
  h.invariant poolInv_new fun hinv hst => step_poolInv hinv hst

/-! ### The asserts -/

/-- The logger is stopped only after its thread has passed the first assert. -/
def stopsLate (s : Sink) (a : SinkAct) : Prop := a = .stop → s.pc ≠ .start

lemma pc_swapSection (s : Sink) (timeout : Bool) :
    (s.swapSection timeout).pc ∈ [.fault, .loopHead, .buffer 0] := by
  simp only [swapSection]
  split
  · simp
  · dsimp only
    split_ifs <;> simp

/-- A step of the sink thread never leads to its start; to the failure of the first assert and
to its end it leads only when the logger is not running. -/
lemma threadStep_pc {a : SinkThreadAct} (ht : s.threadStep a = some t) :
    t.pc ≠ .start ∧ (t.pc = .notRunning → s.pc = .start ∧ s.running = false) ∧
      (t.pc = .exited → a = .advance ∧ s.pc = .loopHead ∧ s.running = false) := by
  cases threadStep_cases ht with
  | start => simp
  | notRunning hpc hrun => simp [hpc, hrun]
  | loopHead hpc =>
      dsimp only
      split_ifs with hrun <;> simp [hpc, hrun]
  | @swap _ timeout =>
      have hswap := pc_swapSection s timeout
      simp only [List.mem_cons, List.not_mem_nil, or_false] at hswap
      rcases hswap with h | h | h <;> simp [h]
  | buffer =>
      dsimp only
      split <;> simp
  | parseHeader =>
      simp only [parseHeader]
      split <;> simp
  | parseEntry =>
      simp only [parseEntry]
      split
      · split
        · split_ifs <;> simp
        · simp
      · simp
  | parseNext =>
      simp only [parseNext]
      split <;> simp
  | _ => simp

lemma append_frame (s : Sink) (src : ℕ) (name : List UInt8) (len : ℕ) :
    (s.append src name len).pc = s.pc ∧ (s.append src name len).running = s.running := by
  cases hcur : s.currentBuffer with
  | none => simp [append, hcur]
  | some cur =>
      rcases append_cases hcur src name len with ⟨-, heq⟩ | ⟨next, -, heq⟩ | ⟨-, -, heq⟩ | heq <;>
        rw [heq] <;> exact ⟨rfl, rfl⟩

/-- The appender leaves the sink thread where it is. -/
lemma appenderStep_frame {a : AppenderAct} (ht : s.appenderStep a = some t) :
    t.pc = s.pc ∧ t.running = s.running := by
  cases appenderStep_cases ht with
  | append => exact append_frame s _ _ _
  | _ => exact ⟨rfl, rfl⟩

/-- What the swap section and the parser leave alone. -/
lemma swapSection_frame (s : Sink) (timeout : Bool) :
    (s.swapSection timeout).app = s.app ∧ (s.swapSection timeout).appended = s.appended ∧
      (s.swapSection timeout).nextId = s.nextId ∧
      (s.swapSection timeout).newBufferCount = s.newBufferCount ∧
      (s.swapSection timeout).running = s.running ∧
      s.formatted <+: (s.swapSection timeout).formatted := by
  simp only [swapSection, queueCurrent, refillNext]
  split
  · exact ⟨rfl, rfl, rfl, rfl, rfl, List.prefix_rfl⟩
  · split_ifs <;> split <;> exact ⟨rfl, rfl, rfl, rfl, rfl, List.prefix_rfl⟩

lemma parseEntry_frame (s : Sink) (i k : ℕ) (bufLen : ℤ) (hdr pos : ℕ) (remaining : ℤ)
    (b : SinkBuffer) :
    (s.parseEntry i k bufLen hdr pos remaining b).app = s.app ∧
      (s.parseEntry i k bufLen hdr pos remaining b).appended = s.appended ∧
      (s.parseEntry i k bufLen hdr pos remaining b).nextId = s.nextId ∧
      (s.parseEntry i k bufLen hdr pos remaining b).newBufferCount = s.newBufferCount ∧
      (s.parseEntry i k bufLen hdr pos remaining b).running = s.running ∧
      s.formatted <+: (s.parseEntry i k bufLen hdr pos remaining b).formatted := by
  simp only [parseEntry]
  split
  · split
    · split_ifs
      · exact ⟨rfl, rfl, rfl, rfl, rfl, List.prefix_append _ _⟩
      · exact ⟨rfl, rfl, rfl, rfl, rfl, List.prefix_rfl⟩
    · exact ⟨rfl, rfl, rfl, rfl, rfl, List.prefix_rfl⟩
  · exact ⟨rfl, rfl, rfl, rfl, rfl, List.prefix_rfl⟩

/-- What a step of the sink thread leaves alone: it puts in buffers only at its start and sets
the count only at the reset. -/
lemma threadStep_frame {a : SinkThreadAct} (ht : s.threadStep a = some t) :
    t.app = s.app ∧ t.appended = s.appended ∧
      t.nextId = s.nextId + (if s.pc = .start ∧ s.running then 2 else 0) ∧
      t.newBufferCount = (if s.pc = .resetCount then 0 else s.newBufferCount) ∧
      t.running = s.running ∧ s.formatted <+: t.formatted := by
  cases threadStep_cases ht with
  | start hpc hrun => simp [hpc, hrun]
  | notRunning hpc hrun => simp [hpc, hrun]
  | swap hpc =>
      have hframe := swapSection_frame s
      rcases hpc with hpc | hpc <;> simpa [hpc] using hframe _
  | parseEntry hpc => simpa [hpc] using parseEntry_frame ..
  | parseHeader hpc => simp [hpc, parseHeader]
  | parseNext hpc => simp [hpc, parseNext]
  | refillFails hpc => rcases hpc with ⟨hpc, -⟩ | ⟨hpc, -⟩ <;> simp [hpc]
  | loopHead hpc => simp [hpc]
  | wait hpc => simp [hpc]
  | buffer hpc => simp [hpc]
  | endBuffer hpc => simp [hpc]
  | resize hpc => simp [hpc]
  | resetCount hpc => simp [hpc]
  | refill1 hpc => simp [hpc]
  | refill2 hpc => simp [hpc]
  | clear hpc => simp [hpc]

lemma started_of_stopsLate (h : machine.Reaches stopsLate new s) :
    (s.pc = .start → s.running = true) ∧ s.pc ≠ .notRunning := by
  refine Machine.Reaches.invariant
    (I := fun s : Sink => (s.pc = .start → s.running = true) ∧ s.pc ≠ .notRunning) h
    ⟨fun _ => rfl, by simp [new]⟩ fun {t u a} hinv hG hst => ?_
  cases a with
  | appender a =>
      obtain ⟨hpc, hrun⟩ := appenderStep_frame hst
      rw [hpc, hrun]
      exact hinv
  | thread a =>
      obtain ⟨hstart, hnot, -⟩ := threadStep_pc hst
      refine ⟨fun h => absurd h hstart, fun h => ?_⟩
      obtain ⟨hpc, hrun⟩ := hnot h
      rw [hinv.1 hpc] at hrun
      exact absurd hrun (by simp)
  | stop =>
      cases hst
      exact ⟨fun h => absurd h (hG rfl), hinv.2⟩

/-- **The double-buffer pool.** In every run whose stop, if any, comes after the first assert of
the sink thread: at the loop head both spares are there and empty and the batch is empty; the
current buffer is there; the next one is empty when it is there, and when it is not the queue
holds a buffer; no buffer is in two places; after processing the batch holds a buffer for every
spare given away; and no assert fails on either side. -/
theorem bufferPool (h : machine.Reaches stopsLate new s) :
    (s.pc = .loopHead →
      (∃ b, s.newBuffer1 = some b ∧ b.length = 0) ∧ (∃ b, s.newBuffer2 = some b ∧ b.length = 0) ∧
        s.buffersToWrite = []) ∧
      s.currentBuffer ≠ none ∧
      (∀ b, s.nextBuffer = some b → b.length = 0) ∧
      (s.nextBuffer = none → s.buffers ≠ []) ∧
      (s.held.map SinkBuffer.id).Nodup ∧
      (s.pc = .resetCount ∨ s.pc = .refill1 ∨ s.pc = .refill2 →
        s.sparesGiven ≤ s.buffersToWrite.length) ∧
      s.pc ≠ .notRunning ∧ s.pc ≠ .aborted ∧ s.app ≠ .aborted ∧ s.app ≠ .crashed := by
  have hinv := reachable_poolInv (h.mono fun _ _ _ => trivial)
  have hth := hinv.thread
  have happ := hinv.appender
  refine ⟨fun hpc => ?_, ?_, fun b hb => ?_, hinv.next_none, ?_, ?_, ?_, ?_, ?_, ?_⟩
  · rw [hpc] at hth
    obtain ⟨⟨b1, hb1⟩, b2, hb2⟩ := spares_of_sparesGiven hth.1
    refine ⟨⟨b1, hb1, ?_⟩, ⟨b2, hb2, ?_⟩, hth.2⟩
    · rw [SinkBuffer.length, hinv.spares_empty b1 (.inl hb1), List.length_nil]
    · rw [SinkBuffer.length, hinv.spares_empty b2 (.inr hb2), List.length_nil]
  · obtain ⟨b, hb⟩ := hinv.current
    rw [hb]
    exact Option.some_ne_none b
  · rw [SinkBuffer.length, hinv.next_empty b hb, List.length_nil]
  · rw [List.nodup_iff_count_le_one]
    intro a
    have := hinv.places a
    rw [holders] at this
    split_ifs at this <;> omega
  · rintro (hpc | hpc | hpc) <;> rw [hpc] at hth
    · exact hth
    · exact hth
    · exact hth.2
  · exact (started_of_stopsLate h).2
  · rintro hpc
    rw [hpc] at hth
    exact hth
  · rintro hpc
    rw [hpc] at happ
    exact happ
  · rintro hpc
    rw [hpc] at happ
    exact happ

/-- A log entry without arguments. -/
def sampleEntry : List UInt8 := List.replicate 8 0 ++ leBytes 4 24 ++ List.replicate 12 0

/-- A block of one entry is appended while the sink thread waits, and swapped out by a
time-out. -/
def sampleRun : List SinkAct :=
  [.thread .advance, .thread .advance, .thread .advance,
    .appender (.append 0 [65] 24), .appender (.chunk sampleEntry), .appender .advance,
    .thread (.wake true)]

theorem bufferPool_sampleRun : ∃ s, machine.exec machine.init sampleRun = some s ∧
    s.pc = .buffer 0 ∧ s.live = 4 ∧ s.sparesGiven = 1 ∧
    (s.held.map SinkBuffer.id).Nodup ∧ s.currentBuffer ≠ none := by
  refine ⟨_, rfl, rfl, rfl, rfl, ?_⟩
  have hpool := bufferPool (Machine.reaches_of_exec
    (show ∀ a ∈ sampleRun, ∀ t, stopsLate t a by simp [sampleRun, stopsLate])
    (show machine.exec machine.init sampleRun = some _ from rfl))
  exact ⟨hpool.2.2.2.2.1, hpool.2.1⟩

end Sink

end ConstexprFmtStr
