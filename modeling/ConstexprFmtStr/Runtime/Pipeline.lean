import Mathlib.Tactic
import ConstexprFmtStr.Lib.Framing
import ConstexprFmtStr.Runtime.StagingFifo
import ConstexprFmtStr.Runtime.SinkParse

/-!
`RuntimeLogger`: the logging threads with their staging buffers, the poll thread, the sink
logger and the destructor (`runtime_logger.h`, `runtime_logger.cpp`).

* `Pipeline`: the members of `RuntimeLogger`, one `Channel` for each thread, and the point
  each party has reached.
* `Pipeline.pollStep`: `poll_`, one access or one critical section at a time; it drives the
  consumer side of a `Channel` and the appender side of the `Sink`.
* `Pipeline.destroyStep`: `~RuntimeLogger` and `~SinkLogger`.
* `Pipeline.machine`: every interleaving, with any number of threads.

A thread publishes whole log entries, as `TZ_LOG` does: `entrySize` bytes are reserved, filled
and finished.
-/

namespace ConstexprFmtStr

open Slice Framing

/-- The string in the `_name[16]` of a staging buffer. -/
structure ThreadName where
  name : List UInt8
  length_lt : name.length < 16
  nul_notMem : 0 ∉ name

instance (e : List UInt8) : Decidable (IsLogEntry e) :=
  decidable_of_iff (sizeofOneLogEntry ≤ e.length ∧ entrySize e = e.length)
    ⟨fun h => ⟨h.1, h.2⟩, fun h => ⟨h.1, h.2⟩⟩

/-- Where a thread stands with its staging buffer. -/
inductive ThreadPhase
  /-- `stagingBuffer == nullptr` -/
  | fresh
  /-- in `ensureStagingBufferAllocated`, before the `push_back` -/
  | allocated
  | logging
  /-- its `StagingBufferDestroyer` has run -/
  | exited
  deriving DecidableEq

/-- Where `poll_` stands; `sb` is the buffer in hand and `i` its index in `threadBuffers`, a natural
number here. The `int` of the code is that number while there are fewer than `2 ^ 31` buffers; what
becomes of it beyond is left to `PollScan`. -/
inductive PollPc
  /-- at `while (!bgThreadShouldExit)` -/
  | loopHead
  /-- at the lock of `bufferMutex` -/
  | lock
  /-- at the test of the `for` -/
  | scan (i : ℕ)
  | peeking (i sb : ℕ)
  /-- in `SinkLogger::append`, at the lock of `mutex_` -/
  | append (i sb len : ℕ)
  /-- in `appendInternal`, or at the increment before it -/
  | copying (i sb : ℕ)
  /-- in `sb->consume` -/
  | consuming (i sb : ℕ)
  /-- at `lock.lock()` -/
  | relock (i : ℕ)
  | checkDelete (i sb : ℕ)
  /-- at `delete sb` -/
  | delete (i sb : ℕ)
  | exited
  deriving DecidableEq

/-- Where the destructor stands. -/
inductive DestructorPc
  | alive
  | joinPoll
  | stopSink
  | joinSink
  | done
  deriving DecidableEq

/-- The runtime logger. `atDestruction` records how many entries each thread had published when
`~RuntimeLogger` began; no step reads it. -/
structure Pipeline where
  chans : ℕ → Channel
  threads : ℕ → ThreadPhase
  threadBuffers : List ℕ
  poll : PollPc
  sink : Sink
  bgThreadShouldExit : Bool
  destructor : DestructorPc
  atDestruction : ℕ → ℕ

/-- A step of one of the parties. -/
inductive PipelineAct
  | allocate (i : ℕ)
  | register (i : ℕ)
  | log (i : ℕ) (a : ProducerAct)
  | exit (i : ℕ)
  | poll
  | sink (a : SinkThreadAct)
  | destroy

namespace Pipeline

variable (names : ℕ → ThreadName)

/-- The staging buffer of the thread `i` is now `c`. -/
def setChan (s : Pipeline) (i : ℕ) (c : Channel) : Pipeline :=
  { s with chans := Function.update s.chans i c }

/-- `poll_` holds `bufferMutex`. -/
def holdsBufferMutex : PollPc → Bool
  | .scan _ | .peeking _ _ | .checkDelete _ _ | .delete _ _ => true
  | _ => false

/-! ### The logging threads -/

/-- What a thread publishes is a whole entry. -/
def publishesEntry (c : Channel) : ProducerAct → Bool
  | .finish m =>
      match c.prod with
      | .reserved pos _ => decide (IsLogEntry (slice c.buf.storage pos m))
      | _ => false
  | _ => true

/-- A step of the thread `i` in `reserveAlloc`, in the space it reserved or in
`finishAlloc`. -/
def logStep (s : Pipeline) (i : ℕ) (a : ProducerAct) : Option Pipeline :=
  if s.threads i = .logging ∧ publishesEntry (s.chans i) a then
    ((s.chans i).producerStep a).map (s.setChan i)
  else none

/-- The thread `i` ends, outside `reserveAlloc` and `finishAlloc`: `~StagingBufferDestroyer`. -/
def exitStep (s : Pipeline) (i : ℕ) : Option Pipeline :=
  match s.threads i, (s.chans i).prod with
  | .logging, .idle | .logging, .reserved _ _ =>
      let c := s.chans i
      some { s.setChan i { c with buf := { c.buf with shouldDeallocate := true } } with
        threads := Function.update s.threads i .exited }
  | _, _ => none

/-! ### `poll_` -/

/-- One step of the copy loop of `appendInternal`: a chunk goes into the sink buffer and
`consume` is called for it, or the block is done. -/
def copyStep (s : Pipeline) (i sb : ℕ) : Option Pipeline :=
  match s.sink.app, (s.chans sb).cons with
  | .counting _ _ _, _ => (s.sink.appenderStep .advance).map fun k => { s with sink := k }
  | .copying _ 0, _ =>
      (s.sink.appenderStep .advance).map fun k => { s with sink := k, poll := .relock i }
  | .copying _ remaining, .idle pos _ =>
      let n := min releaseThreshold remaining
      (s.sink.appenderStep (.chunk (slice (s.chans sb).buf.storage pos n))).bind fun k =>
        ((s.chans sb).consumerStep (.consume n)).map fun c =>
          { s.setChan sb c with sink := k, poll := .consuming i sb }
  | _, _ => none

/-- One step of `poll_`. -/
def pollStep (s : Pipeline) : Option Pipeline :=
  match s.poll with
  | .loopHead => some { s with poll := if s.bgThreadShouldExit then .exited else .lock }
  | .lock => some { s with poll := .scan 0 }
  | .scan i =>
      match s.threadBuffers[i]? with
      | some sb =>
          ((s.chans sb).consumerStep .peek).map fun c =>
            { s.setChan sb c with poll := .peeking i sb }
      | none => some { s with poll := .loopHead }
  | .peeking i sb =>
      match (s.chans sb).cons with
      | .idle _ avail =>
          some { s with poll := if 0 < avail then .append i sb avail else .checkDelete i sb }
      | _ => ((s.chans sb).consumerStep .advance).map (s.setChan sb)
  | .append i sb len =>
      (s.sink.appenderStep (.append sb (names sb).name len)).map fun k =>
        { s with
          sink := k
          poll :=
            match k.app with
            | .outside => .append i sb len
            | _ => .copying i sb }
  | .copying i sb => s.copyStep i sb
  | .consuming i sb =>
      ((s.chans sb).consumerStep .advance).map fun c =>
        { s.setChan sb c with poll := .copying i sb }
  | .relock i => some { s with poll := .scan (i + 1) }
  | .checkDelete i sb =>
      some { s with poll :=
        if (s.chans sb).buf.checkCanDelete then .delete i sb else .scan (i + 1) }
  | .delete i _ =>
      some { s with
        threadBuffers := s.threadBuffers.eraseIdx i
        poll := if s.threadBuffers.eraseIdx i = [] then .loopHead else .scan i }
  | .exited => none

/-! ### The destructor -/

/-- One step of `~RuntimeLogger`, and of the `~SinkLogger` that follows it. -/
def destroyStep (s : Pipeline) : Option Pipeline :=
  match s.destructor with
  | .alive =>
      some { s with
        bgThreadShouldExit := true
        destructor := .joinPoll
        atDestruction := fun i => (s.chans i).finished.length }
  | .joinPoll => if s.poll = .exited then some { s with destructor := .stopSink } else none
  | .stopSink =>
      some (if s.sink.running then
        { s with sink := { s.sink with running := false }, destructor := .joinSink }
      else { s with destructor := .done })
  | .joinSink => if s.sink.pc = .exited then some { s with destructor := .done } else none
  | .done => none

/-- One step of the runtime logger. -/
def step (s : Pipeline) : PipelineAct → Option Pipeline
  | .allocate i =>
      if s.threads i = .fresh then
        some { s with threads := Function.update s.threads i .allocated }
      else none
  | .register i =>
      if s.threads i = .allocated ∧ holdsBufferMutex s.poll = false then
        some { s with
          threads := Function.update s.threads i .logging
          threadBuffers := s.threadBuffers ++ [i] }
      else none
  | .log i a => s.logStep i a
  | .exit i => s.exitStep i
  | .poll => s.pollStep names
  | .sink a => (s.sink.threadStep a).map fun k => { s with sink := k }
  | .destroy => s.destroyStep

/-- A new runtime logger; a thread that allocates its staging buffer finds a new one. -/
def new : Pipeline where
  chans := fun _ => .new
  threads := fun _ => .fresh
  threadBuffers := []
  poll := .loopHead
  sink := .new
  bgThreadShouldExit := false
  destructor := .alive
  atDestruction := fun _ => 0

/-- Every interleaving of the logging threads, the poll thread, the sink thread and the
destructor. -/
def machine : Machine Pipeline PipelineAct where
  init := new
  step := step names

/-! ### What was published and what was formatted -/

/-- The entries the thread `i` has published. -/
def publishedBy (s : Pipeline) (i : ℕ) : List (List UInt8) :=
  (s.chans i).finished.map Reservation.bytes

/-- The entries the sink thread has formatted from the staging buffer of the thread `i`. -/
def formattedFrom (s : Pipeline) (i : ℕ) : List (List UInt8) :=
  (s.sink.formatted.filter fun l => l.src = some i).map LogLine.entry

end Pipeline

end ConstexprFmtStr
