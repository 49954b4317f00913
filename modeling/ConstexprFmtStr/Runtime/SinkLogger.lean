import Mathlib.Tactic
import ConstexprFmtStr.Lib.Machine
import ConstexprFmtStr.Lib.Word
import ConstexprFmtStr.Runtime.StagingBuffer

/-!
`RuntimeLogger::SinkLogger` (`runtime_logger.h`, `runtime_logger.cpp`): the pool of 128 MB
buffers between the poll thread, which appends blocks of log entries, and the sink thread,
which formats them.

* `SinkBuffer`: the bytes written so far, with the identity of the `Buffer` they are in.
* `Sink`: the members of `SinkLogger`, the locals of `threadFunc` and the point each of the
  two threads has reached.
* `Sink.append`, `beginBlock`, `swapSection`, `refill`: the pieces of `append` and
  `threadFunc`; `appenderStep` and `threadStep` run them one step at a time, a critical
  section of the sink thread being one step, and `Sink.machine` interleaves them.
* `Block`, `Sink.appended` and `Sink.formatted` record which blocks were appended and which
  entries were formatted; nothing else depends on them.
-/

namespace ConstexprFmtStr

open Word

/-- `RELEASE_THRESHOLD`. -/
def releaseThreshold : ℕ := stagingBufferSize >>> 4

/-- `SUPPLEMENTARY_SINKBUFFER_MAXIMUM_SIZE`. -/
def supplementarySinkBufferMaximumSize : ℕ := 4

/-- `LARGE_BUFFER`. -/
def largeBuffer : ℕ := 128 * 1024 * 1024

/-- `sizeof(ThreadCheckPoint)`: `name_[20]` and the `int` `blockSize_`. -/
def sizeofThreadCheckPoint : ℕ := 24

/-- `sizeof(OneLogEntry)`. -/
def sizeofOneLogEntry : ℕ := 24

/-- What one call of `append` has stored: the staging buffer it came from, the name of its
thread, and the bytes. -/
structure Block where
  src : ℕ
  name : List UInt8
  bytes : List UInt8

/-- The bytes of a zeroed `ThreadCheckPoint` once `name_` and `blockSize_` are set. -/
def threadCheckPoint (name : List UInt8) (blockSize : ℕ) : List UInt8 :=
  name ++ List.replicate (20 - name.length) 0 ++ leBytes 4 blockSize

lemma length_threadCheckPoint {name : List UInt8} (h : name.length ≤ 20) (blockSize : ℕ) :
    (threadCheckPoint name blockSize).length = sizeofThreadCheckPoint := by
  simp [threadCheckPoint, sizeofThreadCheckPoint]
  omega

/-- A `SinkBuffer<LARGE_BUFFER>`: `data` are the bytes of `data_` before `cur_`, `id` tells
one `Buffer` from another and `blocks` are the blocks written so far. -/
structure SinkBuffer where
  id : ℕ
  data : List UInt8
  blocks : List Block

namespace SinkBuffer

/-- `new Buffer`. -/
def new (id : ℕ) : SinkBuffer := ⟨id, [], []⟩

/-- `length()`. -/
def length (b : SinkBuffer) : ℕ := b.data.length

/-- `avail()`. -/
def avail (b : SinkBuffer) : ℕ := largeBuffer - b.length

/-- `reset()`. -/
def reset (b : SinkBuffer) : SinkBuffer := { b with data := [], blocks := [] }

/-- The bytes are written at `cur_` and `cur_` moves behind them. -/
def write (b : SinkBuffer) (bytes : List UInt8) : SinkBuffer :=
  { b with data := b.data ++ bytes }

/-- The `n` bytes from the offset `i` on, `none` when they are not all before `cur_`. -/
def read (b : SinkBuffer) (i n : ℕ) : Option (List UInt8) :=
  if i + n ≤ b.length then some ((b.data.drop i).take n) else none

end SinkBuffer

/-- Where `append` stands. -/
inductive AppenderPc
  /-- `mutex_` is not held -/
  | outside
  /-- at `++newBufferCount_`, the new buffer in place -/
  | counting (src : ℕ) (name : List UInt8) (len : ℕ)
  /-- in the `while` of `appendInternal`; `block` holds the bytes copied so far -/
  | copying (block : Block) (remaining : ℕ)
  /-- the assert of `SinkBuffer::append` has failed -/
  | aborted
  /-- a null `currentBuffer_` was used -/
  | crashed

/-- Where `threadFunc` stands. -/
inductive SinkPc
  /-- at the first assert -/
  | start
  /-- at `while (running_)` -/
  | loopHead
  /-- at the lock of the swap section -/
  | lock
  /-- in `cond_.wait_for` -/
  | waiting
  /-- at the test of the loop over `buffersToWrite` -/
  | buffer (i : ℕ)
  /-- at `while (bufLen > 0)`; `k` counts the blocks behind `pos` -/
  | parse (i k : ℕ) (bufLen : ℤ) (pos : ℕ)
  /-- at `while (remaining > 0)`; `pTCP` is at the offset `hdr` -/
  | entries (i k : ℕ) (bufLen : ℤ) (hdr pos : ℕ) (remaining : ℤ)
  /-- at `buffersToWrite.resize(2)` -/
  | resize
  /-- at `newBufferCount_.store(0)` -/
  | resetCount
  | refill1
  | refill2
  /-- at `buffersToWrite.clear()` -/
  | clear
  | exited
  /-- the first assert has failed: the logger was stopped before its thread began -/
  | notRunning
  /-- another assert of `threadFunc` has failed -/
  | aborted
  /-- a read past the end of a buffer, an `int` overflow or a null `currentBuffer_` -/
  | fault
  deriving DecidableEq

/-- An entry that was formatted: the staging buffer its block came from, the thread name
printed and the bytes handed to `convertFN_`, their header included. -/
structure LogLine where
  src : Option ℕ
  name : List UInt8
  entry : List UInt8

/-- The sink logger and its two threads. -/
structure Sink where
  newBufferCount : ℕ
  running : Bool
  currentBuffer : Option SinkBuffer
  nextBuffer : Option SinkBuffer
  buffers : List SinkBuffer
  newBuffer1 : Option SinkBuffer
  newBuffer2 : Option SinkBuffer
  buffersToWrite : List SinkBuffer
  app : AppenderPc
  pc : SinkPc
  nextId : ℕ
  appended : List Block
  formatted : List LogLine

/-- What the appender does next: enter the critical section of `append`, copy a chunk, or
go on. -/
inductive AppenderAct
  | append (src : ℕ) (name : List UInt8) (len : ℕ)
  | chunk (bytes : List UInt8)
  | advance
  deriving DecidableEq

/-- What the sink thread does next; a wait ends notified or spuriously, or timed out. -/
inductive SinkThreadAct
  | advance
  | wake (timeout : Bool)
  deriving DecidableEq

/-- A step of the appender, of the sink thread, or `running_ = false`. -/
inductive SinkAct
  | appender (a : AppenderAct)
  | thread (a : SinkThreadAct)
  | stop
  deriving DecidableEq

namespace Sink

/-! ### `append` -/

/-- The start of `appendInternal`: the `ThreadCheckPoint` is written. -/
def beginBlock (s : Sink) (cur : SinkBuffer) (src : ℕ) (name : List UInt8) (len : ℕ) : Sink :=
  { s with
    currentBuffer := some (cur.write (threadCheckPoint name len))
    app := .copying ⟨src, name, []⟩ len }

/-- The critical section of `append` up to the first copy, or to the increment of
`newBufferCount_`. When every buffer is taken the section is left with nothing done. -/
def append (s : Sink) (src : ℕ) (name : List UInt8) (len : ℕ) : Sink :=
  match s.currentBuffer with
  | none => { s with app := .crashed }
  | some cur =>
      if len + sizeofThreadCheckPoint < cur.avail then s.beginBlock cur src name len
      else
        match s.nextBuffer with
        | some next =>
            { s with buffers := s.buffers ++ [cur], nextBuffer := none }.beginBlock next src
              name len
        | none =>
            if s.newBufferCount < supplementarySinkBufferMaximumSize then
              { s with
                buffers := s.buffers ++ [cur]
                currentBuffer := some (.new s.nextId)
                nextId := s.nextId + 1
                app := .counting src name len }
            else s

/-- One step of the appender. `name` is the string in a `_name[16]`; the mutex is held from
`append` until nothing remains to be copied. -/
def appenderStep (s : Sink) (a : AppenderAct) : Option Sink :=
  match s.app, a with
  | .outside, .append src name len =>
      if (name.length < 16 ∧ 0 ∉ name) ∧ len ≤ stagingBufferSize then
        some (s.append src name len)
      else none
  | .counting src name len, .advance =>
      match s.currentBuffer with
      | none => some { s with app := .crashed }
      | some cur =>
          some ({ s with newBufferCount := s.newBufferCount + 1 }.beginBlock cur src name len)
  | .copying block remaining, .chunk bytes =>
      if 0 < remaining ∧ bytes.length = min releaseThreshold remaining then
        match s.currentBuffer with
        | none => some { s with app := .crashed }
        | some cur =>
            if bytes.length < cur.avail then
              some { s with
                currentBuffer := some (cur.write bytes)
                app := .copying { block with bytes := block.bytes ++ bytes }
                  (remaining - bytes.length) }
            else some { s with app := .aborted }
      else none
  | .copying block remaining, .advance =>
      if remaining = 0 then
        some { s with
          currentBuffer := s.currentBuffer.map fun cur =>
            { cur with blocks := cur.blocks ++ [block] }
          app := .outside
          appended := s.appended ++ [block] }
      else none
  | _, _ => none

/-! ### `threadFunc` -/

/-- The test that moves `currentBuffer_` to the queue: after a time-out when it holds
anything, else when it is more than `0.8` full. -/
def worthSwapping (cur : SinkBuffer) : Bool → Bool
  | true => decide (0 < cur.length)
  | false => decide (4 * largeBuffer < 5 * cur.length)

/-- The current buffer is queued and a spare takes its place. -/
def queueCurrent (s : Sink) (cur : SinkBuffer) (timeout : Bool) : Sink :=
  if worthSwapping cur timeout then
    { s with
      buffers := s.buffers ++ [cur]
      currentBuffer := s.newBuffer1
      newBuffer1 := none }
  else s

/-- `buffersToWrite.swap(buffers_)`. -/
def swapBuffers (s : Sink) : Sink :=
  { s with buffersToWrite := s.buffers, buffers := s.buffersToWrite }

/-- A null `nextBuffer_` is replaced by the second spare. -/
def refillNext (s : Sink) : Sink :=
  match s.nextBuffer with
  | some _ => s
  | none => { s with nextBuffer := s.newBuffer2, newBuffer2 := none }

/-- The swap section from the return of `wait_for` (or from its being skipped) on. -/
def swapSection (s : Sink) (timeout : Bool) : Sink :=
  match s.currentBuffer with
  | none => { s with pc := .fault }
  | some cur =>
      let s' := (s.queueCurrent cur timeout).swapBuffers.refillNext
      { s' with pc := if s'.buffersToWrite = [] then .loopHead else .buffer 0 }

/-- The asserts at the head of the loop. -/
def loopAsserts (s : Sink) : Bool :=
  s.newBuffer1.any (·.length == 0) && s.newBuffer2.any (·.length == 0) &&
    s.buffersToWrite.isEmpty

/-- The header read at the top of the outer parse loop. -/
def parseHeader (s : Sink) (i k : ℕ) (bufLen : ℤ) (pos : ℕ) (b : SinkBuffer) : Sink :=
  { s with pc :=
      match b.read (pos + 20) 4 with
      | some size =>
          .entries i k bufLen pos (pos + sizeofThreadCheckPoint) (wrapS 32 (leValue size))
      | none => .fault }

/-- The body of the inner parse loop: one entry is formatted. -/
def parseEntry (s : Sink) (i k : ℕ) (bufLen : ℤ) (hdr pos : ℕ) (remaining : ℤ)
    (b : SinkBuffer) : Sink :=
  match b.read hdr 20, b.read pos sizeofOneLogEntry with
  | some name, some header =>
      let entrySize := leValue ((header.drop 8).take 4)
      match b.read pos entrySize with
      | some entry =>
          let remaining' := remaining - wrapS 32 entrySize
          if wrapS 32 remaining' = remaining' then
            { s with
              pc := .entries i k bufLen hdr (pos + entrySize) remaining'
              formatted := s.formatted ++
                [⟨b.blocks[k]?.map Block.src, name.takeWhile (· ≠ 0), entry⟩] }
          else { s with pc := .fault }
      | none => { s with pc := .fault }
  | _, _ => { s with pc := .fault }

/-- The end of the body of the outer parse loop: `blockSize_` is read again. -/
def parseNext (s : Sink) (i k : ℕ) (bufLen : ℤ) (hdr pos : ℕ) (b : SinkBuffer) : Sink :=
  { s with pc :=
      match b.read (hdr + 20) 4 with
      | some size =>
          .parse i (k + 1)
            (wrapS 32 (bufLen - (wrapS 32 (leValue size) + sizeofThreadCheckPoint))) pos
      | none => .fault }

/-- A spare that was given away is replaced by the last of `buffersToWrite`: the spare and
what is left, `none` when the assert fails. -/
def refill (spare : Option SinkBuffer) (toWrite : List SinkBuffer) :
    Option (SinkBuffer × List SinkBuffer) :=
  match spare with
  | some b => some (b, toWrite)
  | none => toWrite.getLast?.map fun b => (b.reset, toWrite.dropLast)

/-- One step of the sink thread. -/
def threadStep (s : Sink) (a : SinkThreadAct) : Option Sink :=
  match s.pc, a with
  | .start, .advance =>
      some (if s.running then
        { s with
          newBuffer1 := some (.new s.nextId)
          newBuffer2 := some (.new (s.nextId + 1))
          nextId := s.nextId + 2
          pc := .loopHead }
      else { s with pc := .notRunning })
  | .loopHead, .advance =>
      some { s with pc :=
        if s.running then if s.loopAsserts then .lock else .aborted else .exited }
  | .lock, .advance =>
      match s.app with
      | .outside =>
          some (if s.buffers = [] then { s with pc := .waiting } else s.swapSection false)
      | _ => none
  | .waiting, .wake timeout =>
      match s.app with
      | .outside => some (s.swapSection timeout)
      | _ => none
  | .buffer i, .advance =>
      some { s with pc :=
        match s.buffersToWrite[i]? with
        | some b => .parse i 0 b.length 0
        | none => .resize }
  | .parse i k bufLen pos, .advance =>
      s.buffersToWrite[i]?.map fun b =>
        if 0 < bufLen then s.parseHeader i k bufLen pos b else { s with pc := .buffer (i + 1) }
  | .entries i k bufLen hdr pos remaining, .advance =>
      s.buffersToWrite[i]?.map fun b =>
        if 0 < remaining then s.parseEntry i k bufLen hdr pos remaining b
        else s.parseNext i k bufLen hdr pos b
  | .resize, .advance =>
      some { s with buffersToWrite := s.buffersToWrite.take 2, pc := .resetCount }
  | .resetCount, .advance => some { s with newBufferCount := 0, pc := .refill1 }
  | .refill1, .advance =>
      some (match refill s.newBuffer1 s.buffersToWrite with
        | some (b, rest) =>
            { s with newBuffer1 := some b, buffersToWrite := rest, pc := .refill2 }
        | none => { s with pc := .aborted })
  | .refill2, .advance =>
      some (match refill s.newBuffer2 s.buffersToWrite with
        | some (b, rest) =>
            { s with newBuffer2 := some b, buffersToWrite := rest, pc := .clear }
        | none => { s with pc := .aborted })
  | .clear, .advance => some { s with buffersToWrite := [], pc := .loopHead }
  | _, _ => none

/-- A step of either thread, or of the one that stops the logger. -/
def step (s : Sink) : SinkAct → Option Sink
  | .appender a => s.appenderStep a
  | .thread a => s.threadStep a
  | .stop => some { s with running := false }

/-- A new `SinkLogger`, its thread not yet at its first instruction. -/
def new : Sink where
  newBufferCount := 0
  running := true
  currentBuffer := some (.new 0)
  nextBuffer := some (.new 1)
  buffers := []
  newBuffer1 := none
  newBuffer2 := none
  buffersToWrite := []
  app := .outside
  pc := .start
  nextId := 2
  appended := []
  formatted := []

/-- Every interleaving of the appender with the sink thread. -/
def machine : Machine Sink SinkAct where
  init := new
  step := step

/-- The live buffers, place by place. -/
def held (s : Sink) : List SinkBuffer :=
  s.currentBuffer.toList ++ s.nextBuffer.toList ++ s.newBuffer1.toList ++ s.newBuffer2.toList ++
    s.buffers ++ s.buffersToWrite

/-- How many buffers are live. -/
def live (s : Sink) : ℕ := s.held.length

end Sink

end ConstexprFmtStr
