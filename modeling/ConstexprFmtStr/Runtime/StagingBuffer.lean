import Mathlib.Tactic
import ConstexprFmtStr.Lib.Machine
import ConstexprFmtStr.Lib.Slice
import ConstexprFmtStr.Lib.Word

/-!
`RuntimeLogger::StagingBuffer` (`runtime_logger.h`): the circular byte queue between one
logging thread and the poll thread.

* `StagingBuffer`: the data members; positions are `size_t` offsets into `_storage`.
* `StagingBuffer.reserveProducerSpace`, `finishReservation`, `peek`, `consume`: the calls as
  they run when nothing interferes, `reserveProducerSpace` with `blocking = false`.
* `Channel`: a buffer together with the point its producer and its consumer have reached.
  Each atomic load or store, with the computation on locals up to the next one, is one step
  (`producerStep`, `consumerStep`), so that `Channel.machine` runs through every interleaving.
* `Channel.finished` and `Channel.consumed` record what was published and what was consumed;
  no step reads them.
-/

namespace ConstexprFmtStr

open Slice Word

/-- `STAGING_BUFFER_SIZE`. -/
def stagingBufferSize : ℕ := 2 ^ 20

/-- The data members of `StagingBuffer` but for its name. -/
structure StagingBuffer where
  producerPos : ℕ
  endOfRecordedSpace : ℕ
  minFreeSpace : ℕ
  consumerPos : ℕ
  shouldDeallocate : Bool
  storage : ℕ → UInt8

namespace StagingBuffer

/-- A new `StagingBuffer`. -/
def new : StagingBuffer where
  producerPos := 0
  endOfRecordedSpace := stagingBufferSize
  minFreeSpace := stagingBufferSize
  consumerPos := 0
  shouldDeallocate := false
  storage := fun _ => 0

/-! ### The calls, run without interference -/

/-- `reserveProducerSpace(nbytes, false)`: the buffer after the call and the offset of the
space returned, `none` for `nullptr`. A call that does not block leaves the loop at the
latest at the end of its first pass. -/
def reserveProducerSpace (b : StagingBuffer) (nbytes : ℕ) : StagingBuffer × Option ℕ :=
  if nbytes < b.minFreeSpace then (b, some b.producerPos)
  else if b.consumerPos ≤ b.producerPos then
    let b₁ := { b with minFreeSpace := u64Sub stagingBufferSize b.producerPos }
    if nbytes < b₁.minFreeSpace then (b₁, some b.producerPos)
    else
      let b₂ := { b₁ with endOfRecordedSpace := b.producerPos }
      if b.consumerPos ≠ 0 then
        let b₃ := { b₂ with producerPos := 0, minFreeSpace := u64Sub b.consumerPos 0 }
        (b₃, if b₃.minFreeSpace ≤ nbytes then none else some 0)
      else (b₂, if b₂.minFreeSpace ≤ nbytes then none else some b.producerPos)
  else
    let b₁ := { b with minFreeSpace := u64Sub b.consumerPos b.producerPos }
    (b₁, if b₁.minFreeSpace ≤ nbytes then none else some b.producerPos)

/-- `finishReservation(nbytes)`, past its two asserts. -/
def finishReservation (b : StagingBuffer) (nbytes : ℕ) : StagingBuffer :=
  { b with
    producerPos := u64Add b.producerPos nbytes
    minFreeSpace := u64Sub b.minFreeSpace nbytes }

/-- `peek`: the buffer after the call, the offset returned and `*bytesAvailable`. -/
def peek (b : StagingBuffer) : StagingBuffer × ℕ × ℕ :=
  if b.producerPos < b.consumerPos then
    if 0 < u64Sub b.endOfRecordedSpace b.consumerPos then
      (b, b.consumerPos, u64Sub b.endOfRecordedSpace b.consumerPos)
    else ({ b with consumerPos := 0 }, 0, u64Sub b.producerPos 0)
  else (b, b.consumerPos, u64Sub b.producerPos b.consumerPos)

/-- `consume(nbytes)`. -/
def consume (b : StagingBuffer) (nbytes : ℕ) : StagingBuffer :=
  { b with consumerPos := u64Add b.consumerPos nbytes }

/-- `checkCanDelete()`. -/
def checkCanDelete (b : StagingBuffer) : Bool := b.shouldDeallocate

end StagingBuffer

/-! ### The two threads, one atomic access at a time -/

/-- A finished reservation: where it lies and the bytes the producer left there. -/
structure Reservation where
  pos : ℕ
  bytes : List UInt8

/-- The addresses of a reservation. -/
def Reservation.addrs (r : Reservation) : List ℕ := List.range' r.pos r.bytes.length

/-- The published bytes of a reservation, each with its address. -/
def Reservation.cells (r : Reservation) : List (ℕ × UInt8) := r.addrs.zip r.bytes

/-- Where the producer stands. In the states of a call `nbytes` and `blocking` are its
arguments, `cur` is `currentProducerPos` and `cached` is `cachedConsumerPos`. -/
inductive ProducerPc
  /-- between calls, nothing reserved -/
  | idle
  /-- in the body of the `while`, at the load of `_consumerPos` -/
  | loop (nbytes : ℕ) (blocking : Bool) (cur : ℕ)
  /-- at the store to `_endOfRecordedSpace` -/
  | storeEnd (nbytes : ℕ) (blocking : Bool) (cur cached : ℕ)
  /-- at the store of `0` to `_producerPos` -/
  | rollOver (nbytes : ℕ) (blocking : Bool) (cached : ℕ)
  /-- at the load of `_producerPos` after that store -/
  | reload (nbytes : ℕ) (blocking : Bool) (cached : ℕ)
  /-- `reserveProducerSpace` has returned `_storage + pos` -/
  | reserved (pos nbytes : ℕ)
  /-- in `finishReservation`, at the store to `_producerPos` -/
  | publish (cur nbytes : ℕ)
  /-- an assert of `finishReservation` has failed -/
  | aborted

/-- Where the consumer stands. `cur` is `currentConsumerPos`, `cached` is
`cachedProducerPos`. -/
inductive ConsumerPc
  /-- between calls; of the bytes last peeked, `avail` from `pos` on are not consumed yet -/
  | idle (pos avail : ℕ)
  /-- in `peek`, at the load of `_producerPos` -/
  | loadProducer (cur : ℕ)
  /-- in `peek`, at the load of `_endOfRecordedSpace` -/
  | loadEnd (cur cached : ℕ)
  /-- in `peek`, at the store of `0` to `_consumerPos` -/
  | rollOver (cached : ℕ)
  /-- in `peek`, at the load of `_consumerPos` after that store -/
  | reload (cached : ℕ)
  /-- in `consume(nbytes)`, at the store to `_consumerPos` -/
  | storeConsumer (pos avail nbytes cur : ℕ)

/-- A buffer with its two threads, what was published and what was consumed so far. -/
structure Channel where
  buf : StagingBuffer
  prod : ProducerPc
  cons : ConsumerPc
  finished : List Reservation
  consumed : List UInt8

/-- What the producer does next: a call, a byte written into the space it reserved, or the
next access of the call it is in. -/
inductive ProducerAct
  | reserve (nbytes : ℕ) (blocking : Bool)
  | fill (i : ℕ) (byte : UInt8)
  | finish (nbytes : ℕ)
  | advance

/-- What the consumer does next. -/
inductive ConsumerAct
  | peek
  | consume (nbytes : ℕ)
  | advance

namespace Channel

/-- The end of the loop body of `reserveProducerSpace` and the test of its `while`. -/
def loopTest (b : StagingBuffer) (nbytes : ℕ) (blocking : Bool) (cur : ℕ) : ProducerPc :=
  if !blocking && decide (b.minFreeSpace ≤ nbytes) then .idle
  else if b.minFreeSpace ≤ nbytes then .loop nbytes blocking cur
  else .reserved cur nbytes

/-- The start of `reserveProducerSpace`: the load of `_producerPos` and the fast path. -/
def reserveEnter (s : Channel) (nbytes : ℕ) (blocking : Bool) : Channel :=
  { s with prod :=
      if nbytes < s.buf.minFreeSpace then .reserved s.buf.producerPos nbytes
      else .loop nbytes blocking s.buf.producerPos }

/-- One step of the producer. A reservation may be abandoned by reserving again. -/
def producerStep (s : Channel) (a : ProducerAct) : Option Channel :=
  match s.prod, a with
  | .idle, .reserve nbytes blocking => some (reserveEnter s nbytes blocking)
  | .reserved _ _, .reserve nbytes blocking => some (reserveEnter s nbytes blocking)
  | .loop nbytes blocking cur, .advance =>
      let cached := s.buf.consumerPos
      if cached ≤ cur then
        let b := { s.buf with minFreeSpace := u64Sub stagingBufferSize cur }
        some { s with
          buf := b
          prod := if nbytes < b.minFreeSpace then .reserved cur nbytes
            else .storeEnd nbytes blocking cur cached }
      else
        let b := { s.buf with minFreeSpace := u64Sub cached cur }
        some { s with buf := b, prod := loopTest b nbytes blocking cur }
  | .storeEnd nbytes blocking cur cached, .advance =>
      let b := { s.buf with endOfRecordedSpace := cur }
      some { s with
        buf := b
        prod := if cached ≠ 0 then .rollOver nbytes blocking cached
          else loopTest b nbytes blocking cur }
  | .rollOver nbytes blocking cached, .advance =>
      some { s with
        buf := { s.buf with producerPos := 0 }
        prod := .reload nbytes blocking cached }
  | .reload nbytes blocking cached, .advance =>
      let cur := s.buf.producerPos
      let b := { s.buf with minFreeSpace := u64Sub cached cur }
      some { s with buf := b, prod := loopTest b nbytes blocking cur }
  | .reserved pos nbytes, .fill i byte =>
      if pos ≤ i ∧ i < pos + nbytes then
        some { s with buf := { s.buf with storage := Function.update s.buf.storage i byte } }
      else none
  | .reserved _ nbytes, .finish m =>
      if m ≤ nbytes then
        let cur := s.buf.producerPos
        some { s with prod :=
          if m < s.buf.minFreeSpace ∧ u64Add cur m < stagingBufferSize then .publish cur m
          else .aborted }
      else none
  | .publish cur m, .advance =>
      some { s with
        buf := { s.buf with
          producerPos := u64Add cur m
          minFreeSpace := u64Sub s.buf.minFreeSpace m }
        prod := .idle
        finished := s.finished ++ [⟨cur, slice s.buf.storage cur m⟩] }
  | _, _ => none

/-- One step of the consumer. -/
def consumerStep (s : Channel) (a : ConsumerAct) : Option Channel :=
  match s.cons, a with
  | .idle _ _, .peek => some { s with cons := .loadProducer s.buf.consumerPos }
  | .loadProducer cur, .advance =>
      let cached := s.buf.producerPos
      some { s with cons :=
        if cached < cur then .loadEnd cur cached else .idle cur (u64Sub cached cur) }
  | .loadEnd cur cached, .advance =>
      let avail := u64Sub s.buf.endOfRecordedSpace cur
      some { s with cons := if 0 < avail then .idle cur avail else .rollOver cached }
  | .rollOver cached, .advance =>
      some { s with buf := { s.buf with consumerPos := 0 }, cons := .reload cached }
  | .reload cached, .advance =>
      some { s with cons := .idle s.buf.consumerPos (u64Sub cached s.buf.consumerPos) }
  | .idle pos avail, .consume nbytes =>
      if nbytes ≤ avail then
        some { s with cons := .storeConsumer pos avail nbytes s.buf.consumerPos }
      else none
  | .storeConsumer pos avail nbytes cur, .advance =>
      some { s with
        buf := { s.buf with consumerPos := u64Add cur nbytes }
        cons := .idle (pos + nbytes) (avail - nbytes)
        consumed := s.consumed ++ slice s.buf.storage pos nbytes }
  | _, _ => none

/-- A step of either thread. -/
def step (s : Channel) : ProducerAct ⊕ ConsumerAct → Option Channel
  | .inl a => s.producerStep a
  | .inr a => s.consumerStep a

/-- A new buffer, nothing called yet. -/
def new : Channel where
  buf := .new
  prod := .idle
  cons := .idle 0 0
  finished := []
  consumed := []

/-- Every interleaving of one producer and one consumer on a new buffer. -/
def machine : Machine Channel (ProducerAct ⊕ ConsumerAct) where
  init := new
  step := step

/-! ### What was published -/

/-- The concatenation of all finished reservations. -/
def finishedBytes (s : Channel) : List UInt8 := s.finished.flatMap Reservation.bytes

/-- The same bytes, each with the address it was published at. -/
def finishedCells (s : Channel) : List (ℕ × UInt8) := s.finished.flatMap Reservation.cells

/-- The published bytes not consumed yet, each with its address. -/
def unconsumed (s : Channel) : List (ℕ × UInt8) := s.finishedCells.drop s.consumed.length

/-- The bytes the consumer may read: those it has peeked and not consumed yet. -/
def exposed (s : Channel) : List UInt8 :=
  match s.cons with
  | .idle pos avail => slice s.buf.storage pos avail
  | .storeConsumer pos avail _ _ => slice s.buf.storage pos avail
  | _ => []

/-- The space in the producer's hands, as an offset and a length: reserved, or being
published. -/
def handedOut (s : Channel) : Option (ℕ × ℕ) :=
  match s.prod with
  | .reserved pos nbytes => some (pos, nbytes)
  | .publish pos nbytes => some (pos, nbytes)
  | _ => none

end Channel

end ConstexprFmtStr
