import Mathlib.Tactic
import ConstexprFmtStr.Runtime.StagingBuffer

/-!
The staging buffer is a lossless queue under every interleaving of its two threads.

The published bytes that are not consumed yet occupy the addresses `span`: one stretch from
`_consumerPos` to `_producerPos` while both are on the same lap, two stretches, up to
`_endOfRecordedSpace` and from `0` on, once the producer has rolled over.

* `Channel.Inv` says that these addresses hold exactly the bytes still owed to the consumer
  (`stream`), that `_minFreeSpace` is a lower bound on the room ahead of the producer
  (`Room`), and, for every point between a load and its later use, what the loaded value
  still says (`ProducerInv`, `ConsumerInv`).
* `producerStep_inv`, `consumerStep_inv`: each step keeps it; `Channel.reachable_inv`.
* `Boundary`: a peek ends where a reservation ends, so it exposes whole reservations.
-/

namespace ConstexprFmtStr

open Slice Word

lemma stagingBufferSize_lt : stagingBufferSize < 2 ^ 64 := by
  norm_num [stagingBufferSize]

/-! ### The addresses between the two positions -/

/-- The addresses from the consumer at `c` to the producer at `p`, in the order they are
consumed in; `e` marks the end of the lap the producer has left. -/
def span (p e c : ℕ) : List ℕ :=
  if c ≤ p then List.range' c (p - c) else List.range' c (e - c) ++ List.range' 0 p

/-- How many of them lie in one piece from `c` on. -/
def stretch (p e c : ℕ) : ℕ := if c ≤ p then p - c else e - c

section Span

variable {p e c m k : ℕ}

lemma span_of_le (h : c ≤ p) : span p e c = List.range' c (p - c) := if_pos h

lemma span_of_lt (h : p < c) : span p e c = List.range' c (e - c) ++ List.range' 0 p :=
  if_neg (by omega)

lemma stretch_of_le (h : c ≤ p) : stretch p e c = p - c := if_pos h

lemma stretch_of_lt (h : p < c) : stretch p e c = e - c := if_neg (by omega)

/-- The first stretch of the span starts at the consumer. -/
lemma take_span (h : k ≤ stretch p e c) : (span p e c).take k = List.range' c k := by
  rcases le_or_gt c p with hle | hlt
  · rw [stretch_of_le hle] at h
    rw [span_of_le hle, List.take_range'_of_length_ge h]
  · rw [stretch_of_lt hlt] at h
    rw [span_of_lt hlt, List.take_append_of_le_length (by simpa using h),
      List.take_range'_of_length_ge h]

/-- Consuming moves the start of the span. -/
lemma span_consume (h : k ≤ stretch p e c) :
    span p e (c + k) = (span p e c).drop k := by
  rcases le_or_gt c p with hle | hlt
  · rw [stretch_of_le hle] at h
    rw [span_of_le hle, span_of_le (by omega), List.drop_range', Nat.mul_one, Nat.sub_sub]
  · rw [stretch_of_lt hlt] at h
    rw [span_of_lt hlt, span_of_lt (by omega), List.drop_append_of_le_length (by simpa using h),
      List.drop_range', Nat.mul_one, Nat.sub_sub]

/-- The roll-over of the consumer, once it has reached the mark. -/
lemma span_consumer_rollOver (hlt : p < c) (he : e = c) : span p e 0 = span p e c := by
  rw [span_of_lt hlt, span_of_le (Nat.zero_le _), he]
  simp

/-- The roll-over of the producer, once it has set the mark. -/
lemma span_producer_rollOver (hle : c ≤ p) (hpos : 0 < c) : span 0 p c = span p e c := by
  rw [span_of_le hle, span_of_lt hpos]
  simp

/-- On one lap the mark does not matter. -/
lemma span_storeEnd (hle : c ≤ p) (e' : ℕ) : span p e' c = span p e c := by
  rw [span_of_le hle, span_of_le hle]

/-- Publishing extends the span at its end. -/
lemma span_publish (hfree : p < c → p + m < c) :
    span (p + m) e c = span p e c ++ List.range' p m := by
  rcases le_or_gt c p with hle | hlt
  · rw [span_of_le hle, span_of_le (by omega), Nat.sub_add_comm hle, ← List.range'_append_1]
    congr 2
    omega
  · rw [span_of_lt hlt, span_of_lt (hfree hlt), List.append_assoc, ← List.range'_append_1,
      Nat.zero_add]

end Span

/-! ### The invariant -/

/-- What the locals of the consumer say at each point about the positions `p`, `e`, `c`. The
predicate `bound` holds of the counts of owed bytes after which a reservation ends. -/
def ConsumerInv (p e c : ℕ) (bound : ℕ → Prop) : ConsumerPc → Prop
  | .idle pos avail => pos = c ∧ avail ≤ stretch p e c ∧ bound avail
  | .loadProducer cur => cur = c
  | .loadEnd cur cached => cur = c ∧ cached ≤ p ∧ p < c ∧ bound (e - c + cached)
  | .rollOver cached => e = c ∧ cached ≤ p ∧ p < c ∧ bound cached
  | .reload cached => c = 0 ∧ cached ≤ p ∧ bound cached
  | .storeConsumer pos avail nbytes cur =>
      pos = c ∧ cur = c ∧ nbytes ≤ avail ∧ avail ≤ stretch p e c ∧ bound avail

section ConsumerInv

variable {p e c m : ℕ} {bound : ℕ → Prop} {pc : ConsumerPc}

/-- On one lap the consumer's locals do not depend on the mark. -/
lemma ConsumerInv.storeEnd (h : ConsumerInv p e c bound pc) (hle : c ≤ p) (e' : ℕ) :
    ConsumerInv p e' c bound pc := by
  cases pc <;> simp only [ConsumerInv, stretch_of_le hle] at h ⊢ <;> first | exact h | omega

/-- The roll-over of the producer leaves the consumer's locals true. -/
lemma ConsumerInv.producer_rollOver (h : ConsumerInv p e c bound pc) (hle : c ≤ p)
    (hpos : 0 < c) : ConsumerInv 0 p c bound pc := by
  cases pc <;> simp only [ConsumerInv, stretch_of_le hle, stretch_of_lt hpos] at h ⊢ <;>
    first | exact h | omega

/-- So does publishing into the room ahead of the producer. -/
lemma ConsumerInv.publish {bound' : ℕ → Prop} (h : ConsumerInv p e c bound pc)
    (hfree : p < c → p + m < c) (hbound : ∀ k, bound k → bound' k) :
    ConsumerInv (p + m) e c bound' pc := by
  have hstretch : stretch p e c ≤ stretch (p + m) e c := by
    unfold stretch
    split_ifs <;> omega
  cases pc with
  | idle pos avail => exact ⟨h.1, h.2.1.trans hstretch, hbound _ h.2.2⟩
  | loadProducer cur => exact h
  | loadEnd cur cached =>
      exact ⟨h.1, h.2.1.trans (Nat.le_add_right p m), hfree h.2.2.1, hbound _ h.2.2.2⟩
  | rollOver cached =>
      exact ⟨h.1, h.2.1.trans (Nat.le_add_right p m), hfree h.2.2.1, hbound _ h.2.2.2⟩
  | reload cached => exact ⟨h.1, h.2.1.trans (Nat.le_add_right p m), hbound _ h.2.2⟩
  | storeConsumer pos avail nbytes cur =>
      exact ⟨h.1, h.2.1, h.2.2.1, h.2.2.2.1.trans hstretch, hbound _ h.2.2.2.2⟩

end ConsumerInv

namespace StagingBuffer

/-- Where the positions may lie. The second field is about the state after the producer has
rolled over: `_endOfRecordedSpace` marks what is left to read at the end of the storage. -/
structure Positions (b : StagingBuffer) : Prop where
  producer_lt : b.producerPos < stagingBufferSize
  wrapped : b.producerPos < b.consumerPos →
    b.consumerPos ≤ b.endOfRecordedSpace ∧ b.endOfRecordedSpace < stagingBufferSize

/-- The `free` bytes ahead of the producer are in the storage and not owed to the consumer. -/
def Room (b : StagingBuffer) (free : ℕ) : Prop :=
  b.producerPos + free ≤ stagingBufferSize ∧
    (b.producerPos < b.consumerPos → b.producerPos + free ≤ b.consumerPos)

/-- The addresses of the bytes owed to the consumer. -/
def owed (b : StagingBuffer) : List ℕ := span b.producerPos b.endOfRecordedSpace b.consumerPos

/-- What the locals of the producer say about the buffer at each point. -/
def ProducerInv (b : StagingBuffer) : ProducerPc → Prop
  | .idle => b.Room b.minFreeSpace
  | .loop _ _ cur => b.Room b.minFreeSpace ∧ cur = b.producerPos
  | .storeEnd _ _ cur cached =>
      b.Room b.minFreeSpace ∧ cur = b.producerPos ∧ cached ≤ b.consumerPos ∧
        b.consumerPos ≤ b.producerPos
  | .rollOver _ _ cached =>
      b.endOfRecordedSpace = b.producerPos ∧ 0 < cached ∧ cached ≤ b.consumerPos ∧
        b.consumerPos ≤ b.producerPos
  | .reload _ _ cached => b.Room cached ∧ b.producerPos = 0
  | .reserved pos nbytes =>
      b.Room b.minFreeSpace ∧ pos = b.producerPos ∧ nbytes < b.minFreeSpace
  | .publish cur nbytes =>
      b.Room b.minFreeSpace ∧ cur = b.producerPos ∧ nbytes < b.minFreeSpace
  | .aborted => False

lemma Positions.consumer_lt {b : StagingBuffer} (h : b.Positions) :
    b.consumerPos < stagingBufferSize := by
  have hp := h.producer_lt
  by_cases hw : b.producerPos < b.consumerPos
  · have := h.wrapped hw
    omega
  · omega

/-- The addresses owed to the consumer are outside the room ahead of the producer. -/
lemma notMem_owed {b : StagingBuffer} {free a : ℕ} (hroom : b.Room free)
    (hlo : b.producerPos ≤ a) (hhi : a < b.producerPos + free) : a ∉ b.owed := by
  intro ha
  rcases le_or_gt b.consumerPos b.producerPos with hle | hlt
  · rw [owed, span_of_le hle, List.mem_range'_1] at ha
    omega
  · have hfree := hroom.2 hlt
    rw [owed, span_of_lt hlt, List.mem_append, List.mem_range'_1, List.mem_range'_1] at ha
    omega

end StagingBuffer

namespace Channel

attribute [local simp] producerStep consumerStep

open StagingBuffer

/-- One of the reservations ends after the first `k` published bytes. -/
def Boundary (finished : List Reservation) (k : ℕ) : Prop :=
  ∃ i, ((finished.take i).flatMap Reservation.bytes).length = k

/-- **The invariant of the staging buffer**: the owed addresses hold, in order, the published
bytes not consumed yet, and each thread's locals still say something true. -/
structure Inv (s : Channel) : Prop where
  positions : s.buf.Positions
  stream : s.unconsumed = located s.buf.storage s.buf.owed
  consumed_eq : s.consumed = s.finishedBytes.take s.consumed.length
  wrap_boundary : s.buf.producerPos < s.buf.consumerPos →
    Boundary s.finished (s.consumed.length + (s.buf.endOfRecordedSpace - s.buf.consumerPos))
  producer : s.buf.ProducerInv s.prod
  consumer : ConsumerInv s.buf.producerPos s.buf.endOfRecordedSpace s.buf.consumerPos
    (fun k => Boundary s.finished (s.consumed.length + k)) s.cons

/-! ### Published bytes and their addresses -/

lemma map_snd_cells (r : Reservation) : r.cells.map Prod.snd = r.bytes := by
  rw [Reservation.cells, List.map_snd_zip]
  simp [Reservation.addrs]

lemma cells_slice (f : ℕ → UInt8) (a n : ℕ) :
    (⟨a, slice f a n⟩ : Reservation).cells = located f (List.range' a n) := by
  rw [Reservation.cells, Reservation.addrs, length_slice]
  simp [slice, located, List.zip, List.zipWith_map_right, List.zipWith_self]

variable {s t : Channel}

lemma map_snd_finishedCells (s : Channel) : s.finishedCells.map Prod.snd = s.finishedBytes := by
  simp [finishedCells, finishedBytes, List.map_flatMap, map_snd_cells]

lemma length_finishedCells (s : Channel) : s.finishedCells.length = s.finishedBytes.length := by
  rw [← map_snd_finishedCells, List.length_map]

/-- What is published stays at its boundaries when more is published. -/
lemma Boundary.append {finished : List Reservation} {k : ℕ} (h : Boundary finished k)
    (r : Reservation) : Boundary (finished ++ [r]) k := by
  obtain ⟨i, hi⟩ := h
  rcases le_or_gt i finished.length with hle | hgt
  · exact ⟨i, by rw [List.take_append_of_le_length hle, hi]⟩
  · refine ⟨finished.length, ?_⟩
    rw [List.take_left, ← hi, List.take_of_length_le hgt.le]

lemma boundary_total (s : Channel) : Boundary s.finished s.finishedBytes.length :=
  ⟨s.finished.length, by rw [List.take_length, finishedBytes]⟩

/-! ### What the invariant says about the bytes owed -/

lemma Inv.consumed_le (h : s.Inv) : s.consumed.length ≤ s.finishedBytes.length := by
  have := congrArg List.length h.consumed_eq
  rw [List.length_take] at this
  omega

/-- The published bytes are the consumed ones and the owed ones. -/
lemma Inv.length_finishedBytes (h : s.Inv) :
    s.finishedBytes.length = s.consumed.length + s.buf.owed.length := by
  have hlen := congrArg List.length h.stream
  have := h.consumed_le
  rw [unconsumed, List.length_drop, length_finishedCells, length_located] at hlen
  omega

/-- The owed bytes follow the consumed ones. -/
lemma Inv.finishedBytes_eq (h : s.Inv) :
    s.finishedBytes = s.consumed ++ (located s.buf.storage s.buf.owed).map Prod.snd := by
  have hstream := congrArg (List.map Prod.snd) h.stream
  rw [unconsumed, List.map_drop, map_snd_finishedCells] at hstream
  rw [← hstream]
  conv_rhs => rw [h.consumed_eq]
  rw [List.length_take, min_eq_left h.consumed_le, List.take_append_drop]

/-- Any part of the first stretch is the next part of the published bytes. -/
lemma Inv.slice_eq (h : s.Inv) {k : ℕ}
    (hk : k ≤ stretch s.buf.producerPos s.buf.endOfRecordedSpace s.buf.consumerPos) :
    s.consumed ++ slice s.buf.storage s.buf.consumerPos k =
      s.finishedBytes.take (s.consumed.length + k) := by
  rw [h.finishedBytes_eq, List.take_length_add_append, ← List.map_take, take_located, owed,
    take_span hk, map_snd_located_range']

/-! ### One step keeps the invariant -/

/-- A step of the producer that moves no position and writes no byte. -/
lemma Inv.of_local (h : s.Inv) (free : ℕ) {pc : ProducerPc}
    (hpc : ({ s.buf with minFreeSpace := free } : StagingBuffer).ProducerInv pc) :
    Inv { s with buf := { s.buf with minFreeSpace := free }, prod := pc } where
  positions := ⟨h.positions.producer_lt, h.positions.wrapped⟩
  stream := h.stream
  consumed_eq := h.consumed_eq
  wrap_boundary := h.wrap_boundary
  producer := hpc
  consumer := h.consumer

/-- The end of the loop body leaves a true local state if there is room. -/
lemma producerInv_loopTest (b : StagingBuffer) (hroom : b.Room b.minFreeSpace) (nbytes : ℕ)
    (blocking : Bool) : b.ProducerInv (loopTest b nbytes blocking b.producerPos) := by
  unfold loopTest
  split_ifs with h1 h2
  · exact hroom
  · exact ⟨hroom, rfl⟩
  · exact ⟨hroom, rfl, by omega⟩

lemma inv_reserveEnter (hinv : s.Inv) (h : s.buf.Room s.buf.minFreeSpace) (nbytes : ℕ)
    (blocking : Bool) : (s.reserveEnter nbytes blocking).Inv := by
  refine hinv.of_local s.buf.minFreeSpace ?_
  split_ifs with hfast
  · exact ⟨h, rfl, hfast⟩
  · exact ⟨h, rfl⟩

/-- What the loop body does after it has loaded `_consumerPos`. -/
lemma inv_loop (h : s.Inv) {nbytes cur : ℕ} {blocking : Bool}
    (hpc : s.prod = .loop nbytes blocking cur) (ht : s.producerStep .advance = some t) :
    t.Inv := by
  have hprod := h.producer
  have hlt := h.positions.producer_lt
  have hclt := h.positions.consumer_lt
  have hS := stagingBufferSize_lt
  rw [hpc] at hprod
  obtain ⟨-, rfl⟩ := hprod
  simp only [producerStep, hpc] at ht
  split_ifs at ht with hle hfits <;> cases ht <;> refine h.of_local _ ?_
  · rw [u64Sub_of_le hlt.le hS] at hfits ⊢
    exact ⟨⟨by dsimp only; omega, fun hw => by dsimp only at hw; omega⟩, rfl, hfits⟩
  · rw [u64Sub_of_le hlt.le hS]
    exact ⟨⟨by dsimp only; omega, fun hw => by dsimp only at hw; omega⟩, rfl, le_rfl, hle⟩
  · rw [u64Sub_of_le (by omega) (by omega)]
    refine producerInv_loopTest _ ⟨?_, fun _ => ?_⟩ nbytes blocking <;> dsimp only <;> omega

/-- The mark is set while both positions are on one lap, where nobody reads it. -/
lemma inv_storeEnd (h : s.Inv) {nbytes cur cached : ℕ} {blocking : Bool}
    (hpc : s.prod = .storeEnd nbytes blocking cur cached)
    (ht : s.producerStep .advance = some t) : t.Inv := by
  have hprod := h.producer
  rw [hpc] at hprod
  obtain ⟨hroom, rfl, hcached, hle⟩ := hprod
  simp only [producerStep, hpc, Option.some.injEq] at ht
  subst ht
  have hstream : s.unconsumed =
      located s.buf.storage (span s.buf.producerPos s.buf.producerPos s.buf.consumerPos) := by
    rw [h.stream, owed, span_storeEnd hle s.buf.producerPos]
  refine ⟨⟨h.positions.producer_lt, fun hw => ?_⟩, hstream, h.consumed_eq, fun hw => ?_, ?_,
    h.consumer.storeEnd hle _⟩
  · dsimp only at hw
    omega
  · dsimp only at hw
    omega
  · dsimp only
    split_ifs with hz
    · exact ⟨rfl, by omega, hcached, hle⟩
    · exact producerInv_loopTest { s.buf with endOfRecordedSpace := s.buf.producerPos } hroom
        nbytes blocking

/-- The producer rolls over: what it leaves behind stays owed, up to the mark. -/
lemma inv_rollOver (h : s.Inv) {nbytes cached : ℕ} {blocking : Bool}
    (hpc : s.prod = .rollOver nbytes blocking cached)
    (ht : s.producerStep .advance = some t) : t.Inv := by
  have hprod := h.producer
  have hlt := h.positions.producer_lt
  rw [hpc] at hprod
  obtain ⟨he, hpos, hcached, hle⟩ := hprod
  simp only [producerStep, hpc, Option.some.injEq] at ht
  subst ht
  have hc0 : 0 < s.buf.consumerPos := by omega
  have hstream : s.unconsumed =
      located s.buf.storage (span 0 s.buf.endOfRecordedSpace s.buf.consumerPos) := by
    rw [h.stream, owed, he, span_producer_rollOver hle hc0]
  have htotal := h.length_finishedBytes
  rw [owed, span_of_le hle, List.length_range'] at htotal
  refine ⟨⟨by dsimp only; omega, fun _ => ?_⟩, hstream, h.consumed_eq, fun _ => ?_, ?_, ?_⟩
  · dsimp only
    omega
  · have hbound := boundary_total s
    rwa [htotal, ← he] at hbound
  · exact ⟨⟨by dsimp only; omega, fun _ => by dsimp only; omega⟩, rfl⟩
  · have hcons := h.consumer.producer_rollOver hle hc0
    rwa [← he] at hcons

/-- The room after the roll-over reaches up to the consumer position loaded before it. -/
lemma inv_reload (h : s.Inv) {nbytes cached : ℕ} {blocking : Bool}
    (hpc : s.prod = .reload nbytes blocking cached)
    (ht : s.producerStep .advance = some t) : t.Inv := by
  have hprod := h.producer
  have hS := stagingBufferSize_lt
  rw [hpc] at hprod
  obtain ⟨hroom, hp0⟩ := hprod
  simp only [producerStep, hpc, Option.some.injEq] at ht
  subst ht
  have hsize := hroom.1
  have hfree : u64Sub cached s.buf.producerPos = cached := by
    rw [u64Sub_of_le (by omega) (by omega)]
    omega
  refine h.of_local _ ?_
  rw [hfree]
  exact producerInv_loopTest { s.buf with minFreeSpace := cached } hroom nbytes blocking

/-- The producer writes only into the room ahead of it, which holds no owed byte. -/
lemma inv_fill (h : s.Inv) {pos nbytes i : ℕ} {byte : UInt8}
    (hpc : s.prod = .reserved pos nbytes) (ht : s.producerStep (.fill i byte) = some t) :
    t.Inv := by
  have hprod := h.producer
  rw [hpc] at hprod
  obtain ⟨hroom, rfl, hn⟩ := hprod
  simp only [producerStep, hpc] at ht
  split_ifs at ht with hi
  simp only [Option.some.injEq] at ht
  subst ht
  have hnot : i ∉ s.buf.owed := notMem_owed hroom hi.1 (by omega)
  refine ⟨⟨h.positions.producer_lt, h.positions.wrapped⟩, ?_, h.consumed_eq, h.wrap_boundary,
    ?_, h.consumer⟩
  · refine h.stream.trans (located_congr fun a ha => ?_)
    have hne : a ≠ i := fun hai => hnot (by rwa [← hai])
    exact (Function.update_of_ne hne _ _).symm
  · exact ⟨hroom, rfl, hn⟩

/-- Both asserts of `finishReservation` hold. -/
lemma inv_finish (h : s.Inv) {pos nbytes m : ℕ} (hpc : s.prod = .reserved pos nbytes)
    (ht : s.producerStep (.finish m) = some t) : t.Inv := by
  have hprod := h.producer
  have hS := stagingBufferSize_lt
  rw [hpc] at hprod
  obtain ⟨hroom, rfl, hn⟩ := hprod
  have hsize := hroom.1
  simp only [producerStep, hpc] at ht
  split_ifs at ht with hm hassert <;> cases ht
  · exact h.of_local s.buf.minFreeSpace ⟨hroom, rfl, by dsimp only; omega⟩
  · rw [u64Add_of_lt (by omega)] at hassert
    omega

/-- Publishing: the reserved bytes become owed, behind all that was owed before. -/
lemma inv_publish (h : s.Inv) {cur m : ℕ} (hpc : s.prod = .publish cur m)
    (ht : s.producerStep .advance = some t) : t.Inv := by
  have hprod := h.producer
  have hS := stagingBufferSize_lt
  rw [hpc] at hprod
  obtain ⟨hroom, rfl, hm⟩ := hprod
  have hsize := hroom.1
  simp only [producerStep, hpc, Option.some.injEq] at ht
  rw [u64Add_of_lt (by omega), u64Sub_of_le hm.le (by omega)] at ht
  subst ht
  have hfree : s.buf.producerPos < s.buf.consumerPos →
      s.buf.producerPos + m < s.buf.consumerPos := fun hw => by have := hroom.2 hw; omega
  have hwrap : s.buf.producerPos + m < s.buf.consumerPos →
      s.buf.producerPos < s.buf.consumerPos := fun hw => by omega
  have htake := h.consumed_le
  have hdrop := htake
  rw [← length_finishedCells, finishedCells] at hdrop
  rw [finishedBytes] at htake
  refine ⟨⟨by dsimp only; omega, fun hw => h.positions.wrapped (hwrap hw)⟩, ?_, ?_,
    fun hw => (h.wrap_boundary (hwrap hw)).append _, ?_,
    h.consumer.publish hfree fun _ hk => hk.append _⟩
  · simp only [unconsumed, finishedCells, owed, List.flatMap_append, List.flatMap_singleton,
      cells_slice]
    rw [List.drop_append_of_le_length hdrop, span_publish hfree, located_append]
    exact congrArg (· ++ _) h.stream
  · simp only [finishedBytes, List.flatMap_append]
    rw [List.take_append_of_le_length htake]
    exact h.consumed_eq
  · refine ⟨by dsimp only; omega, fun hw => ?_⟩
    have := hroom.2 (hwrap hw)
    dsimp only
    omega

/-- A step of the producer keeps the invariant. -/
theorem producerStep_inv (h : s.Inv) {a : ProducerAct} (ht : s.producerStep a = some t) :
    t.Inv := by
  have hprod := h.producer
  cases hpc : s.prod with
  | idle =>
      rw [hpc] at hprod
      cases a <;> simp only [producerStep, hpc, reduceCtorEq, Option.some.injEq] at ht
      subst ht
      exact inv_reserveEnter h hprod _ _
  | loop nbytes blocking cur =>
      cases a <;> first | exact inv_loop h hpc ht | simp [producerStep, hpc] at ht
  | storeEnd nbytes blocking cur cached =>
      cases a <;> first | exact inv_storeEnd h hpc ht | simp [producerStep, hpc] at ht
  | rollOver nbytes blocking cached =>
      cases a <;> first | exact inv_rollOver h hpc ht | simp [producerStep, hpc] at ht
  | reload nbytes blocking cached =>
      cases a <;> first | exact inv_reload h hpc ht | simp [producerStep, hpc] at ht
  | reserved pos nbytes =>
      rw [hpc] at hprod
      cases a with
      | reserve n blocking =>
          simp only [producerStep, hpc, Option.some.injEq] at ht
          subst ht
          exact inv_reserveEnter h hprod.1 _ _
      | fill i byte => exact inv_fill h hpc ht
      | finish m => exact inv_finish h hpc ht
      | advance => simp [producerStep, hpc] at ht
  | publish cur m =>
      cases a <;> first | exact inv_publish h hpc ht | simp [producerStep, hpc] at ht
  | aborted =>
      rw [hpc] at hprod
      exact hprod.elim

/-- A step of the consumer that writes nothing. -/
lemma Inv.of_cons (h : s.Inv) {pc : ConsumerPc}
    (hpc : ConsumerInv s.buf.producerPos s.buf.endOfRecordedSpace s.buf.consumerPos
      (fun k => Boundary s.finished (s.consumed.length + k)) pc) :
    Inv { s with cons := pc } :=
  ⟨h.positions, h.stream, h.consumed_eq, h.wrap_boundary, h.producer, hpc⟩

/-- The load of `_producerPos`: on one lap all that is owed can be read, and it ends where the
last reservation does. -/
lemma inv_loadProducer (h : s.Inv) {cur : ℕ} (hpc : s.cons = .loadProducer cur)
    (ht : s.consumerStep .advance = some t) : t.Inv := by
  have hcons := h.consumer
  have hlt := h.positions.producer_lt
  have hS := stagingBufferSize_lt
  have htotal := boundary_total s
  rw [h.length_finishedBytes, owed] at htotal
  rw [hpc] at hcons
  obtain rfl : cur = s.buf.consumerPos := hcons
  simp only [consumerStep, hpc, Option.some.injEq] at ht
  subst ht
  refine h.of_cons ?_
  split_ifs with hw
  · rw [span_of_lt hw] at htotal
    simp only [List.length_append, List.length_range'] at htotal
    exact ⟨rfl, le_rfl, hw, htotal⟩
  · rw [span_of_le (by omega), List.length_range'] at htotal
    rw [u64Sub_of_le (by omega) (by omega)]
    exact ⟨rfl, (stretch_of_le (by omega)).ge, htotal⟩

/-- The load of `_endOfRecordedSpace`, which the producer does not touch before the consumer
has rolled over. -/
lemma inv_loadEnd (h : s.Inv) {cur cached : ℕ} (hpc : s.cons = .loadEnd cur cached)
    (ht : s.consumerStep .advance = some t) : t.Inv := by
  have hcons := h.consumer
  have hS := stagingBufferSize_lt
  rw [hpc] at hcons
  obtain ⟨rfl, hcached, hw, hbound⟩ := hcons
  obtain ⟨hce, heS⟩ := h.positions.wrapped hw
  simp only [consumerStep, hpc, Option.some.injEq] at ht
  subst ht
  rw [u64Sub_of_le hce (by omega)]
  refine h.of_cons ?_
  split_ifs with havail
  · exact ⟨rfl, (stretch_of_lt hw).ge, h.wrap_boundary hw⟩
  · have hec : s.buf.endOfRecordedSpace = s.buf.consumerPos := by omega
    rw [hec, Nat.sub_self, Nat.zero_add] at hbound
    exact ⟨hec, hcached, hw, hbound⟩

/-- The consumer rolls over: both are on one lap again. -/
lemma inv_consumer_rollOver (h : s.Inv) {cached : ℕ} (hpc : s.cons = .rollOver cached)
    (ht : s.consumerStep .advance = some t) : t.Inv := by
  have hcons := h.consumer
  have hprod := h.producer
  rw [hpc] at hcons
  obtain ⟨he, hcached, hw, hbound⟩ := hcons
  simp only [consumerStep, hpc, Option.some.injEq] at ht
  subst ht
  have hstream : s.unconsumed =
      located s.buf.storage (span s.buf.producerPos s.buf.endOfRecordedSpace 0) := by
    rw [h.stream, owed, span_consumer_rollOver hw he]
  refine ⟨⟨h.positions.producer_lt, fun hlt => absurd hlt (Nat.not_lt_zero _)⟩, hstream,
    h.consumed_eq, fun hlt => absurd hlt (Nat.not_lt_zero _), ?_, ⟨rfl, hcached, hbound⟩⟩
  -- the room reached up to the old consumer position, which is inside the storage
  have hroom : ∀ {free : ℕ}, s.buf.Room free →
      ({ s.buf with consumerPos := 0 } : StagingBuffer).Room free :=
    fun hr => ⟨hr.1, fun hlt => absurd hlt (Nat.not_lt_zero _)⟩
  cases hp : s.prod <;> simp only [hp, ProducerInv] at hprod ⊢
  case idle => exact hroom hprod
  case reload nbytes blocking cached => exact ⟨hroom hprod.1, hprod.2⟩
  case storeEnd nbytes blocking cur cached => omega
  case rollOver nbytes blocking cached => omega
  all_goals exact ⟨hroom hprod.1, hprod.2⟩

/-- The end of a peek that rolled over. -/
lemma inv_consumer_reload (h : s.Inv) {cached : ℕ} (hpc : s.cons = .reload cached)
    (ht : s.consumerStep .advance = some t) : t.Inv := by
  have hcons := h.consumer
  have hlt := h.positions.producer_lt
  have hS := stagingBufferSize_lt
  rw [hpc] at hcons
  obtain ⟨hc0, hcached, hbound⟩ := hcons
  simp only [consumerStep, hpc, Option.some.injEq] at ht
  subst ht
  have havail : u64Sub cached s.buf.consumerPos = cached := by
    rw [u64Sub_of_le (by omega) (by omega)]
    omega
  refine h.of_cons ⟨rfl, ?_, ?_⟩
  · rw [havail, stretch_of_le (by omega)]
    omega
  · rw [havail]
    exact hbound

/-- Consuming: the bytes read are the next ones owed, and the room ahead of the producer only
grows. -/
lemma inv_storeConsumer (h : s.Inv) {pos avail nbytes cur : ℕ}
    (hpc : s.cons = .storeConsumer pos avail nbytes cur)
    (ht : s.consumerStep .advance = some t) : t.Inv := by
  have hcons := h.consumer
  have hprod := h.producer
  have hlt := h.positions.producer_lt
  have hS := stagingBufferSize_lt
  rw [hpc] at hcons
  obtain ⟨rfl, rfl, hn, havail, hbound⟩ := hcons
  have hnb := hn.trans havail
  have hstretch : s.buf.consumerPos + nbytes < stagingBufferSize ∧
      (s.buf.producerPos < s.buf.consumerPos →
        s.buf.consumerPos + nbytes ≤ s.buf.endOfRecordedSpace) ∧
      (s.buf.consumerPos ≤ s.buf.producerPos →
        s.buf.consumerPos + nbytes ≤ s.buf.producerPos) := by
    have hwrapped := h.positions.wrapped
    rcases le_or_gt s.buf.consumerPos s.buf.producerPos with hle | hw
    · rw [stretch_of_le hle] at hnb
      omega
    · rw [stretch_of_lt hw] at hnb
      have := hwrapped hw
      omega
  obtain ⟨hcS, hwe, hone⟩ := hstretch
  simp only [consumerStep, hpc, Option.some.injEq] at ht
  rw [u64Add_of_lt (by omega)] at ht
  subst ht
  have hstream : s.finishedCells.drop (s.consumed.length + nbytes) = located s.buf.storage
      (span s.buf.producerPos s.buf.endOfRecordedSpace (s.buf.consumerPos + nbytes)) := by
    rw [span_consume hnb, ← drop_located, ← List.drop_drop]
    exact congrArg (List.drop nbytes) h.stream
  have hslice := h.slice_eq hnb
  refine ⟨⟨hlt, fun hw => ?_⟩, ?_, ?_, fun hw => ?_, ?_, rfl, ?_, ?_⟩
  · dsimp only at hw ⊢
    have := h.positions.wrapped (by omega)
    omega
  · simpa [unconsumed, owed, finishedCells] using hstream
  · simpa [finishedBytes] using hslice
  · have hb := h.wrap_boundary (by dsimp only at hw; omega)
    dsimp only at hw ⊢
    rw [List.length_append, length_slice]
    convert hb using 1
    omega
  · have hroom : ∀ {free : ℕ}, s.buf.Room free →
        ({ s.buf with consumerPos := s.buf.consumerPos + nbytes } : StagingBuffer).Room free := by
      refine fun hr => ⟨hr.1, fun hw => ?_⟩
      have := hr.2 (by dsimp only at hw; omega)
      dsimp only
      omega
    cases hp : s.prod <;> simp only [hp, ProducerInv] at hprod ⊢
    case idle => exact hroom hprod
    case storeEnd n blocking cur cached =>
      exact ⟨hroom hprod.1, hprod.2.1, by omega, hone hprod.2.2.2⟩
    case rollOver n blocking cached =>
      exact ⟨hprod.1, hprod.2.1, by omega, hone hprod.2.2.2⟩
    all_goals exact ⟨hroom hprod.1, hprod.2⟩
  · dsimp only
    unfold stretch at havail ⊢
    split_ifs at havail ⊢ <;> omega
  · dsimp only
    rw [List.length_append, length_slice]
    convert hbound using 1
    omega

/-- A step of the consumer keeps the invariant. -/
theorem consumerStep_inv (h : s.Inv) {a : ConsumerAct} (ht : s.consumerStep a = some t) :
    t.Inv := by
  have hcons := h.consumer
  cases hpc : s.cons with
  | idle pos avail =>
      rw [hpc] at hcons
      cases a with
      | peek =>
          simp only [consumerStep, hpc, Option.some.injEq] at ht
          subst ht
          exact h.of_cons rfl
      | consume nbytes =>
          simp only [consumerStep, hpc] at ht
          split_ifs at ht with hn
          cases ht
          exact h.of_cons ⟨hcons.1, rfl, hn, hcons.2⟩
      | advance => simp [consumerStep, hpc] at ht
  | loadProducer cur =>
      cases a <;> first | exact inv_loadProducer h hpc ht | simp [consumerStep, hpc] at ht
  | loadEnd cur cached =>
      cases a <;> first | exact inv_loadEnd h hpc ht | simp [consumerStep, hpc] at ht
  | rollOver cached =>
      cases a <;> first | exact inv_consumer_rollOver h hpc ht | simp [consumerStep, hpc] at ht
  | reload cached =>
      cases a <;> first | exact inv_consumer_reload h hpc ht | simp [consumerStep, hpc] at ht
  | storeConsumer pos avail nbytes cur =>
      cases a <;> first | exact inv_storeConsumer h hpc ht | simp [consumerStep, hpc] at ht

lemma inv_new : new.Inv where
  positions := ⟨by norm_num [new, StagingBuffer.new, stagingBufferSize], fun hw => by
    simp [new, StagingBuffer.new] at hw⟩
  stream := rfl
  consumed_eq := rfl
  wrap_boundary := fun hw => by simp [new, StagingBuffer.new] at hw
  producer := ⟨by simp [new, StagingBuffer.new], fun hw => by simp [new, StagingBuffer.new] at hw⟩
  consumer := ⟨rfl, Nat.zero_le _, 0, rfl⟩

lemma step_inv (h : s.Inv) {a : ProducerAct ⊕ ConsumerAct} (ht : s.step a = some t) : t.Inv := by
  cases a with
  | inl a => exact producerStep_inv h ht
  | inr a => exact consumerStep_inv h ht

/-- The invariant holds in every reachable state. -/
theorem reachable_inv (h : machine.Reachable s) : s.Inv :=
  h.invariant inv_new fun hinv hst => step_inv hinv hst

/-! ### The queue -/

/-- What the consumer may read is the next part of what was published. -/
lemma Inv.exposed_prefix (h : s.Inv) : s.consumed ++ s.exposed <+: s.finishedBytes := by
  have hcons := h.consumer
  have hnone : s.consumed ++ [] <+: s.finishedBytes := by
    rw [List.append_nil, h.consumed_eq]
    exact List.take_prefix _ _
  unfold exposed
  cases hpc : s.cons with
  | idle pos avail =>
      rw [hpc] at hcons
      obtain ⟨rfl, havail, -⟩ := hcons
      dsimp only
      rw [h.slice_eq havail]
      exact List.take_prefix _ _
  | storeConsumer pos avail nbytes cur =>
      rw [hpc] at hcons
      obtain ⟨rfl, -, -, havail, -⟩ := hcons
      dsimp only
      rw [h.slice_eq havail]
      exact List.take_prefix _ _
  | loadProducer cur => exact hnone
  | loadEnd cur cached => exact hnone
  | rollOver cached => exact hnone
  | reload cached => exact hnone

/-- The space in the producer's hands is in the storage and apart from the owed bytes. -/
lemma Inv.handedOut_free (h : s.Inv) {pos nbytes : ℕ} (hout : s.handedOut = some (pos, nbytes)) :
    pos + nbytes ≤ stagingBufferSize ∧
      ∀ a ∈ s.unconsumed.map Prod.fst, a < pos ∨ pos + nbytes ≤ a := by
  have hprod := h.producer
  have hheld : s.buf.Room s.buf.minFreeSpace ∧ pos = s.buf.producerPos ∧
      nbytes < s.buf.minFreeSpace := by
    unfold handedOut at hout
    split at hout <;> rename_i heq
    · rw [heq] at hprod
      cases hout
      exact hprod
    · rw [heq] at hprod
      cases hout
      exact hprod
    · simp at hout
  obtain ⟨hroom, rfl, hn⟩ := hheld
  refine ⟨by have := hroom.1; omega, fun a ha => ?_⟩
  rw [h.stream, map_fst_located] at ha
  by_contra hcon
  exact notMem_owed hroom (by omega) (by omega) ha

/-- **The staging buffer is a lossless queue.** Under every interleaving, what was consumed is
a prefix of what was published and what is exposed continues it; the space in the producer's
hands lies in the storage and shares no address with a published byte that is not consumed;
and no assert of `finishReservation` fails. -/
theorem stagingBuffer_lossless_fifo (h : machine.Reachable s) :
    s.consumed <+: s.finishedBytes ∧
      s.consumed ++ s.exposed <+: s.finishedBytes ∧
      (∀ pos nbytes, s.handedOut = some (pos, nbytes) →
        pos + nbytes ≤ stagingBufferSize ∧
          ∀ a ∈ s.unconsumed.map Prod.fst, a < pos ∨ pos + nbytes ≤ a) ∧
      s.prod ≠ .aborted := by
  have hinv := reachable_inv h
  refine ⟨?_, hinv.exposed_prefix, fun pos nbytes hout => hinv.handedOut_free hout, fun hab => ?_⟩
  · rw [hinv.consumed_eq]
    exact List.take_prefix _ _
  · have hprod := hinv.producer
    rw [hab] at hprod
    exact hprod

/-- Two bytes published and one of them consumed, then four bytes reserved. -/
def sampleRun : List (ProducerAct ⊕ ConsumerAct) :=
  [.inl (.reserve 2 true), .inl (.fill 0 7), .inl (.fill 1 9), .inl (.finish 2), .inl .advance,
    .inr .peek, .inr .advance, .inr (.consume 1), .inr .advance, .inl (.reserve 4 false)]

theorem stagingBuffer_lossless_fifo_sampleRun :
    ∃ s, machine.exec machine.init sampleRun = some s ∧ s.consumed = [7] ∧ s.exposed = [9] ∧
      s.handedOut = some (2, 4) ∧
      s.consumed <+: s.finishedBytes ∧
      s.consumed ++ s.exposed <+: s.finishedBytes ∧
      (∀ pos nbytes, s.handedOut = some (pos, nbytes) →
        pos + nbytes ≤ stagingBufferSize ∧
          ∀ a ∈ s.unconsumed.map Prod.fst, a < pos ∨ pos + nbytes ≤ a) ∧
      s.prod ≠ .aborted :=
  ⟨_, rfl, rfl, rfl, rfl, stagingBuffer_lossless_fifo
    (Machine.reachable_of_exec (show machine.exec machine.init sampleRun = some _ from rfl))⟩

end Channel

end ConstexprFmtStr
