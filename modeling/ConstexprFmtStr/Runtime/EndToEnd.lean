import Mathlib.Tactic
import ConstexprFmtStr.Runtime.Pipeline

/-!
From `finishAlloc` to the sink thread's formatting: per-thread order and exactly once.

* `Channel.producerStep_frame`, `Channel.taken`: what each side of a staging buffer leaves
  alone, and the published bytes that have left it or are about to.
* `Channel.wholeEntries_of_covers`: between two ends of reservations lie whole entries.
* `Pipeline.PollStep`: the steps of `poll_`, one for each way on from where it stands.
* `Pipeline.Inv`: what has left a staging buffer is what was appended from it, at every point
  of `poll_`; kept by every step (`step_inv`).
* `endToEnd`: the entries formatted from a staging buffer are a prefix of those published to
  it, and what goes along with it.
-/

namespace ConstexprFmtStr

open Slice Framing

namespace Channel

attribute [local simp] producerStep consumerStep

variable {s t : Channel}

/-! ### The two sides of a staging buffer -/

lemma reserveEnter_prod (s : Channel) (nbytes : ℕ) (blocking : Bool) {cur m : ℕ} :
    (s.reserveEnter nbytes blocking).prod ≠ .publish cur m := by
  simp only [reserveEnter]
  split_ifs <;> simp

lemma loopTest_ne_publish (b : StagingBuffer) (nbytes : ℕ) (blocking : Bool) {c cur m : ℕ} :
    loopTest b nbytes blocking c ≠ .publish cur m := by
  rw [loopTest]
  split_ifs <;> simp

/-- The producer leaves the consumer alone, and publishes at the end. -/
lemma producerStep_frame {a : ProducerAct} (ht : s.producerStep a = some t) :
    t.cons = s.cons ∧ t.consumed = s.consumed ∧
      t.buf.shouldDeallocate = s.buf.shouldDeallocate ∧
      (t.finished = s.finished ∨ ∃ cur m, s.prod = .publish cur m ∧
        t.finished = s.finished ++ [⟨cur, slice s.buf.storage cur m⟩]) := by
  cases hpc : s.prod with
  | idle =>
      cases a <;> simp [hpc] at ht
      subst ht
      exact ⟨rfl, rfl, rfl, .inl rfl⟩
  | loop nbytes blocking cur =>
      cases a <;> simp [hpc] at ht
      split_ifs at ht <;> cases ht <;> exact ⟨rfl, rfl, rfl, .inl rfl⟩
  | reserved pos nbytes =>
      cases a <;> simp [hpc] at ht
      · subst ht
        exact ⟨rfl, rfl, rfl, .inl rfl⟩
      · obtain ⟨-, rfl⟩ := ht
        exact ⟨rfl, rfl, rfl, .inl rfl⟩
      · obtain ⟨-, rfl⟩ := ht
        exact ⟨rfl, rfl, rfl, .inl rfl⟩
  | publish cur m =>
      cases a <;> simp [hpc] at ht
      subst ht
      exact ⟨rfl, rfl, rfl, .inr ⟨cur, m, rfl, rfl⟩⟩
  | storeEnd nbytes blocking cur cached =>
      cases a <;> simp [hpc] at ht
      subst ht
      exact ⟨rfl, rfl, rfl, .inl rfl⟩
  | rollOver nbytes blocking cached =>
      cases a <;> simp [hpc] at ht
      subst ht
      exact ⟨rfl, rfl, rfl, .inl rfl⟩
  | reload nbytes blocking cached =>
      cases a <;> simp [hpc] at ht
      subst ht
      exact ⟨rfl, rfl, rfl, .inl rfl⟩
  | aborted => cases a <;> simp [hpc] at ht

/-- A publication comes from a call of `finishReservation` in the space reserved. -/
lemma producerStep_publish (h : s.Inv) {a : ProducerAct} (ht : s.producerStep a = some t)
    {cur m : ℕ} (hpub : t.prod = .publish cur m) :
    a = .finish m ∧ t.buf = s.buf ∧ ∃ nbytes, s.prod = .reserved cur nbytes := by
  have hprod := h.producer
  cases hpc : s.prod with
  | idle =>
      cases a <;> simp [hpc] at ht
      subst ht
      exact absurd hpub (reserveEnter_prod s _ _)
  | loop nbytes blocking cur' =>
      cases a <;> simp [hpc] at ht
      split_ifs at ht <;> cases ht
      · simp at hpub
      · simp at hpub
      · exact (loopTest_ne_publish _ _ _ hpub).elim
  | storeEnd nbytes blocking cur' cached =>
      cases a <;> simp [hpc] at ht
      subst ht
      dsimp only at hpub
      split_ifs at hpub
      exact (loopTest_ne_publish _ _ _ hpub).elim
  | rollOver nbytes blocking cached =>
      cases a <;> simp [hpc] at ht
      subst ht
      cases hpub
  | reload nbytes blocking cached =>
      cases a <;> simp [hpc] at ht
      subst ht
      exact (loopTest_ne_publish _ _ _ hpub).elim
  | reserved pos nbytes =>
      rw [hpc] at hprod
      cases a <;> simp [hpc] at ht
      · subst ht
        exact absurd hpub (reserveEnter_prod s _ _)
      · obtain ⟨-, rfl⟩ := ht
        simp at hpub
      · obtain ⟨-, rfl⟩ := ht
        dsimp only at hpub
        split_ifs at hpub
        simp only [ProducerPc.publish.injEq] at hpub
        obtain ⟨rfl, rfl⟩ := hpub
        exact ⟨rfl, rfl, nbytes, by rw [hprod.2.1]⟩
  | publish cur' m' =>
      cases a <;> simp [hpc] at ht
      subst ht
      cases hpub
  | aborted => cases a <;> simp [hpc] at ht

/-- The bytes of the `consume` the consumer is in. -/
def committed : ConsumerPc → ℕ
  | .storeConsumer _ _ nbytes _ => nbytes
  | _ => 0

/-- The published bytes that are consumed, or about to be. -/
def taken (s : Channel) : List UInt8 :=
  s.finishedBytes.take (s.consumed.length + committed s.cons)

/-- Whoever is to be consumed was published before. -/
lemma Inv.taken_le (h : s.Inv) :
    s.consumed.length + committed s.cons ≤ s.finishedBytes.length := by
  have hcons := h.consumer
  have hle := h.consumed_le
  cases hpc : s.cons with
  | storeConsumer pos avail nbytes cur =>
      rw [hpc] at hcons
      obtain ⟨-, -, hn, havail, -⟩ := hcons
      have hlen := congrArg List.length (h.slice_eq (hn.trans havail))
      rw [List.length_append, length_slice, List.length_take] at hlen
      rw [committed]
      omega
  | idle pos avail => exact hle
  | loadProducer cur => exact hle
  | loadEnd cur cached => exact hle
  | rollOver cached => exact hle
  | reload cached => exact hle

/-- A call of `consume` only begins or ends at the two points of it. -/
lemma Inv.taken_of_committed (h : s.Inv) (hpc : committed s.cons = 0) :
    s.taken = s.consumed := by
  rw [taken, hpc, Nat.add_zero, ← h.consumed_eq]

/-- Publishing changes nothing about what was taken. -/
lemma producerStep_taken (h : s.Inv) {a : ProducerAct} (ht : s.producerStep a = some t) :
    t.taken = s.taken := by
  obtain ⟨hcons, hconsumed, -, hfin | ⟨cur, m, -, hfin⟩⟩ := producerStep_frame ht
  · rw [taken, taken, hcons, hconsumed, finishedBytes, hfin, finishedBytes]
  · rw [taken, taken, hcons, hconsumed, finishedBytes, hfin, List.flatMap_append]
    exact List.take_append_of_le_length h.taken_le

/-- The consumer leaves the producer alone. What it takes is taken by the call of `consume`,
from where it stands. -/
lemma consumerStep_frame {a : ConsumerAct} (ht : s.consumerStep a = some t) :
    t.prod = s.prod ∧ t.finished = s.finished ∧ t.buf.storage = s.buf.storage ∧
      t.buf.shouldDeallocate = s.buf.shouldDeallocate ∧
      (t.consumed.length + committed t.cons = s.consumed.length + committed s.cons ∨
        ∃ pos avail nbytes, s.cons = .idle pos avail ∧ a = .consume nbytes ∧ nbytes ≤ avail ∧
          t.consumed = s.consumed ∧ ∃ cur, t.cons = .storeConsumer pos avail nbytes cur) := by
  cases hpc : s.cons with
  | idle pos avail =>
      cases a <;> simp [hpc] at ht
      · subst ht
        exact ⟨rfl, rfl, rfl, rfl, .inl rfl⟩
      · obtain ⟨hn, rfl⟩ := ht
        exact ⟨rfl, rfl, rfl, rfl, .inr ⟨pos, avail, _, rfl, rfl, hn, rfl, _, rfl⟩⟩
  | loadProducer cur =>
      cases a <;> simp [hpc] at ht
      subst ht
      dsimp only
      split_ifs <;> exact ⟨rfl, rfl, rfl, rfl, .inl rfl⟩
  | loadEnd cur cached =>
      cases a <;> simp [hpc] at ht
      subst ht
      dsimp only
      split_ifs <;> exact ⟨rfl, rfl, rfl, rfl, .inl rfl⟩
  | rollOver cached =>
      cases a <;> simp [hpc] at ht
      subst ht
      exact ⟨rfl, rfl, rfl, rfl, .inl rfl⟩
  | reload cached =>
      cases a <;> simp [hpc] at ht
      subst ht
      exact ⟨rfl, rfl, rfl, rfl, .inl rfl⟩
  | storeConsumer pos avail nbytes cur =>
      cases a <;> simp [hpc] at ht
      subst ht
      exact ⟨rfl, rfl, rfl, rfl, .inl (by simp [committed])⟩

/-- The steps of `peek`, and the end of `consume`. -/
lemma consumerStep_taken {a : ConsumerAct} (ht : s.consumerStep a = some t)
    (ha : ∀ nbytes, a ≠ .consume nbytes) : t.taken = s.taken := by
  obtain ⟨-, hfin, -, -, hlen | ⟨_, _, nbytes, -, hcall, -⟩⟩ := consumerStep_frame ht
  · rw [taken, taken, hlen, finishedBytes, hfin, finishedBytes]
  · exact absurd hcall (ha nbytes)

/-- The call of `consume` takes the bytes that stand at the consumer. -/
lemma consume_taken (h : s.Inv) {pos avail nbytes : ℕ} (hpc : s.cons = .idle pos avail)
    (ht : s.consumerStep (.consume nbytes) = some t) :
    t.taken = s.taken ++ slice s.buf.storage pos nbytes ∧
      nbytes ≤ avail ∧ ∃ cur, t.cons = .storeConsumer pos avail nbytes cur := by
  have hcons := h.consumer
  rw [hpc] at hcons
  obtain ⟨rfl, havail, -⟩ := hcons
  simp only [consumerStep, hpc, Option.ite_none_right_eq_some, Option.some.injEq] at ht
  obtain ⟨hn, rfl⟩ := ht
  refine ⟨?_, hn, _, rfl⟩
  rw [h.taken_of_committed (by rw [hpc]; rfl), h.slice_eq (hn.trans havail)]
  rfl

/-! ### Whole entries between two boundaries -/

/-- The first `k` reservations make up exactly these bytes. -/
def Covers (finished : List Reservation) (bs : List UInt8) : Prop :=
  ∃ k ≤ finished.length, bs = (finished.take k).flatMap Reservation.bytes

lemma Covers.append {finished : List Reservation} {bs : List UInt8} (h : Covers finished bs)
    (r : Reservation) : Covers (finished ++ [r]) bs := by
  obtain ⟨k, hk, rfl⟩ := h
  refine ⟨k, by rw [List.length_append]; omega, ?_⟩
  rw [List.take_append_of_le_length hk]

/-- A prefix of what was published that ends where a reservation does is made of whole
reservations. -/
lemma covers_of_boundary {bs : List UInt8} (hpre : bs <+: s.finishedBytes)
    (h : Boundary s.finished bs.length) : Covers s.finished bs := by
  obtain ⟨i, hi⟩ := h
  have htake : (s.finished.take i).flatMap Reservation.bytes <+: s.finishedBytes := by
    conv_rhs => rw [finishedBytes, ← List.take_append_drop i s.finished, List.flatMap_append]
    exact List.prefix_append _ _
  have heq : bs = (s.finished.take i).flatMap Reservation.bytes :=
    (List.prefix_of_prefix_length_le hpre htake hi.ge).eq_of_length hi.symm
  rcases le_or_gt i s.finished.length with hle | hgt
  · exact ⟨i, hle, heq⟩
  · exact ⟨s.finished.length, le_rfl, by rw [heq, List.take_length, List.take_of_length_le hgt.le]⟩

/-- **Between two ends of reservations lie whole entries**, when only whole entries were
published. -/
lemma wholeEntries_of_covers {finished : List Reservation} {x y : List UInt8}
    (hentries : ∀ r ∈ finished, IsLogEntry r.bytes) (hx : Covers finished x)
    (hxy : Covers finished (x ++ y)) :
    ∃ es : List (List UInt8), (∀ e ∈ es, IsLogEntry e) ∧ es.flatten = y := by
  obtain ⟨k, hk, rfl⟩ := hx
  obtain ⟨k', hk', heq⟩ := hxy
  rcases le_or_gt k k' with hle | hlt
  · refine ⟨((finished.drop k).take (k' - k)).map Reservation.bytes, ?_, ?_⟩
    · intro e he
      obtain ⟨r, hr, rfl⟩ := List.mem_map.mp he
      exact hentries r (List.mem_of_mem_drop (List.mem_of_mem_take hr))
    · have hsplit : finished.take k' =
          finished.take k ++ (finished.drop k).take (k' - k) := by
        rw [← List.take_add, Nat.add_sub_cancel' hle]
      rw [hsplit, List.flatMap_append] at heq
      rw [List.append_cancel_left heq, List.flatMap]
  · have hsplit : finished.take k = finished.take k' ++ (finished.drop k').take (k - k') := by
      rw [← List.take_add, Nat.add_sub_cancel' hlt.le]
    have hlen := congrArg List.length heq
    rw [hsplit, List.flatMap_append, List.length_append, List.length_append] at hlen
    exact ⟨[], by simp, (List.length_eq_zero_iff.mp (by omega)).symm⟩

end Channel

namespace Sink

attribute [local simp] appenderStep

variable {s t : Sink}

/-! ### The four moves of the appender -/

/-- The critical section of `append` is entered: nothing is done, or the block is begun. -/
lemma append_call (hpool : s.PoolInv) {src len : ℕ} {name : List UInt8}
    (happ : s.app = .outside) (ht : s.appenderStep (.append src name len) = some t) :
    t.appended = s.appended ∧
      (t.app = .outside ∨ t.app = .counting src name len ∨
        t.app = .copying ⟨src, name, []⟩ len) := by
  obtain ⟨cur, hcur⟩ := hpool.current
  simp [happ] at ht
  obtain ⟨-, rfl⟩ := ht
  rcases append_cases hcur src name len with ⟨-, heq⟩ | ⟨next, -, heq⟩ | ⟨-, -, heq⟩ | heq <;>
    rw [heq]
  · exact ⟨rfl, .inr (.inr rfl)⟩
  · exact ⟨rfl, .inr (.inr rfl)⟩
  · exact ⟨rfl, .inr (.inl rfl)⟩
  · exact ⟨rfl, .inl happ⟩

/-- After the increment the block is begun. -/
lemma append_counting (hpool : s.PoolInv) {src len : ℕ} {name : List UInt8}
    (happ : s.app = .counting src name len) (ht : s.appenderStep .advance = some t) :
    t.appended = s.appended ∧ t.app = .copying ⟨src, name, []⟩ len := by
  obtain ⟨cur, hcur⟩ := hpool.current
  simp [happ, hcur] at ht
  subst ht
  exact ⟨rfl, rfl⟩

/-- A chunk is copied behind the others. -/
lemma append_chunk (hpool : s.PoolInv) {blk : Block} {remaining : ℕ} {bytes : List UInt8}
    (happ : s.app = .copying blk remaining) (ht : s.appenderStep (.chunk bytes) = some t) :
    t.appended = s.appended ∧
      t.app = .copying { blk with bytes := blk.bytes ++ bytes } (remaining - bytes.length) := by
  have hpool' := appenderStep_poolInv hpool ht
  obtain ⟨cur, hcur⟩ := hpool.current
  simp [happ, hcur] at ht
  obtain ⟨-, ht⟩ := ht
  split_ifs at ht <;> cases ht
  · exact ⟨rfl, rfl⟩
  · exact hpool'.appender.elim

/-- The block is done, and it is the last one of the current buffer. -/
lemma append_done {blk : Block} {remaining : ℕ} (happ : s.app = .copying blk remaining)
    (ht : s.appenderStep .advance = some t) :
    remaining = 0 ∧ t.app = .outside ∧ t.appended = s.appended ++ [blk] ∧
      t.currentBuffer = s.currentBuffer.map fun cur =>
        { cur with blocks := cur.blocks ++ [blk] } := by
  simp [happ] at ht
  obtain ⟨rfl, rfl⟩ := ht
  exact ⟨rfl, rfl, rfl, rfl⟩

/-! ### What the sink has formatted and what it holds -/

/-- What was formatted comes first in what was appended. -/
lemma ParseInv.formatted_prefix {pc : SinkPc} (h : s.ParseInv pc) :
    s.formatted <+: s.appended.flatMap Block.lines := by
  have hbal {todo : List LogLine} {rest : List Block} (hb : s.Balanced todo rest) :
      s.formatted <+: s.appended.flatMap Block.lines := ⟨_, hb⟩
  cases pc with
  | parse i k bufLen pos =>
      obtain ⟨b, -, -, hb⟩ := h
      exact hbal hb
  | entries i k bufLen hdr pos remaining =>
      obtain ⟨b, blk, done, todo, -, -, -, -, -, -, hb⟩ := h
      exact hbal hb
  | fault => exact h.elim
  | _ => exact hbal h

/-- The lines of one staging buffer are the entries of its blocks. -/
lemma lines_filter (log : List Block) (i : ℕ) :
    ((log.flatMap Block.lines).filter fun l => l.src = some i).map LogLine.entry =
      (log.filter fun blk => blk.src = i).flatMap Block.entries := by
  induction log with
  | nil => rfl
  | cons blk log ih =>
      have hlines : (blk.lines.filter fun l => l.src = some i).map LogLine.entry =
          if blk.src = i then blk.entries else [] := by
        rw [Block.lines]
        by_cases hsrc : blk.src = i <;>
          simp [hsrc, Block.line, List.filter_map, Function.comp_def]
      rw [List.flatMap_cons, List.filter_append, List.map_append, ih, hlines]
      by_cases hsrc : blk.src = i <;> simp [hsrc]

/-- The part of a block that `append` has written so far: its header, and the bytes copied. -/
def partialBlock : AppenderPc → List UInt8
  | .copying blk remaining =>
      threadCheckPoint blk.name (blk.bytes.length + remaining) ++ blk.bytes
  | _ => []

/-- Every buffer holds blocks one after another, each behind its `ThreadCheckPoint`; only the
current one may hold a part of one more. -/
lemma held_stored (hpool : s.PoolInv) (h : s.StoreInv) {b : SinkBuffer} (hb : b ∈ s.held) :
    b.blocks ⊆ s.appended ∧
      (b.data = b.blocks.flatMap Block.encode ∨ s.currentBuffer = some b ∧
        b.data = b.blocks.flatMap Block.encode ++ partialBlock s.app) := by
  have hempty (hdata : b.data = []) (hblocks : b.blocks = []) :
      b.blocks ⊆ s.appended ∧ b.data = b.blocks.flatMap Block.encode := by
    rw [hblocks, hdata]
    exact ⟨List.nil_subset _, rfl⟩
  simp only [held, List.mem_append, Option.mem_toList] at hb
  rcases hb with ((((hcur | hnext) | hnew) | hnew) | hqueue) | hbatch
  · have hcurrent := h.current
    cases happ : s.app with
    | outside =>
        rw [happ] at hcurrent
        exact ⟨(hcurrent b hcur).logged, .inl (hcurrent b hcur).data_eq⟩
    | counting src name len =>
        rw [happ] at hcurrent
        exact ⟨(hcurrent.2.2 b hcur).logged, .inl (hcurrent.2.2 b hcur).data_eq⟩
    | copying blk remaining =>
        rw [happ] at hcurrent
        exact ⟨(hcurrent.2.2 b hcur).1, .inr ⟨hcur, (hcurrent.2.2 b hcur).2⟩⟩
    | aborted =>
        have := hpool.appender
        rw [happ] at this
        exact this.elim
    | crashed =>
        have := hpool.appender
        rw [happ] at this
        exact this.elim
  · have := hempty (hpool.next_empty b hnext) (h.fresh b (.inl hnext))
    exact ⟨this.1, .inl this.2⟩
  · have := hempty (hpool.spares_empty b (.inl hnew)) (h.fresh b (.inr (.inl hnew)))
    exact ⟨this.1, .inl this.2⟩
  · have := hempty (hpool.spares_empty b (.inr hnew)) (h.fresh b (.inr (.inr hnew)))
    exact ⟨this.1, .inl this.2⟩
  · exact ⟨(h.queued b hqueue).logged, .inl (h.queued b hqueue).data_eq⟩
  · exact ⟨(h.batch b hbatch).logged, .inl (h.batch b hbatch).data_eq⟩

end Sink

namespace Pipeline

variable {names : ℕ → ThreadName} {s t : Pipeline}

/-! ### The invariant -/

/-- The bytes of the blocks appended from the staging buffer `i`. -/
def logged (s : Pipeline) (i : ℕ) : List UInt8 :=
  (s.sink.appended.filter fun blk => blk.src = i).flatMap Block.bytes

/-- The bytes from the staging buffer `i` that `append` has copied of a block it has not
finished. -/
def inFlight (app : AppenderPc) (i : ℕ) : List UInt8 :=
  match app with
  | .copying blk _ => if blk.src = i then blk.bytes else []
  | _ => []

/-- Where the appender and the consumer of the staging buffer in hand stand, at each point of
`poll_`. -/
def PollInv (names : ℕ → ThreadName) (chans : ℕ → Channel) (app : AppenderPc) : PollPc → Prop
  | .append _ sb len => app = .outside ∧ ∃ pos, (chans sb).cons = .idle pos len
  | .copying _ sb =>
      (∃ len pos, app = .counting sb (names sb).name len ∧ (chans sb).cons = .idle pos len) ∨
        ∃ bytes remaining pos, app = .copying ⟨sb, (names sb).name, bytes⟩ remaining ∧
          (chans sb).cons = .idle pos remaining
  | .consuming _ sb => ∃ bytes remaining pos avail nbytes cur,
      app = .copying ⟨sb, (names sb).name, bytes⟩ remaining ∧
        (chans sb).cons = .storeConsumer pos avail nbytes cur ∧ avail - nbytes = remaining
  | _ => app = .outside

/-- **The invariant of the runtime logger**: what has left a staging buffer is what was
appended from it, up to the end of a reservation but for the block in hand. -/
structure Inv (names : ℕ → ThreadName) (s : Pipeline) : Prop where
  chan : ∀ i, (s.chans i).Inv
  sink : Sink.machine.Reachable s.sink
  entries : ∀ i, ∀ r ∈ (s.chans i).finished, IsLogEntry r.bytes
  publishing : ∀ i cur m, (s.chans i).prod = .publish cur m →
    IsLogEntry (slice (s.chans i).buf.storage cur m)
  taken : ∀ i, (s.chans i).taken = s.logged i ++ inFlight s.sink.app i
  covers : ∀ i, Channel.Covers (s.chans i).finished (s.logged i)
  named : ∀ blk ∈ s.sink.appended, blk.name = (names blk.src).name ∧ blk.WholeEntries
  poll : PollInv names s.chans s.sink.app s.poll

@[simp] lemma inFlight_outside (i : ℕ) : inFlight .outside i = [] := rfl

@[simp] lemma inFlight_counting (src len : ℕ) (name : List UInt8) (i : ℕ) :
    inFlight (.counting src name len) i = [] := rfl

lemma inFlight_copying (blk : Block) (remaining i : ℕ) :
    inFlight (.copying blk remaining) i = if blk.src = i then blk.bytes else [] := rfl

lemma logged_congr (h : t.sink.appended = s.sink.appended) (i : ℕ) : t.logged i = s.logged i := by
  rw [logged, h, logged]

/-- One more block is appended. -/
lemma logged_append {blk : Block} (h : t.sink.appended = s.sink.appended ++ [blk]) (i : ℕ) :
    t.logged i = s.logged i ++ if blk.src = i then blk.bytes else [] := by
  rw [logged, h, List.filter_append, List.flatMap_append, logged]
  by_cases hsrc : blk.src = i <;> simp [hsrc]

lemma setChan_chans (s : Pipeline) (i : ℕ) (c : Channel) (j : ℕ) :
    (s.setChan i c).chans j = if j = i then c else s.chans j :=
  Function.update_apply s.chans i c j

/-- A step that leaves the staging buffers alone, and what was appended. -/
lemma Inv.of_frame (h : s.Inv names) (hchans : t.chans = s.chans)
    (happended : t.sink.appended = s.sink.appended) (hsink : Sink.machine.Reachable t.sink)
    (htaken : ∀ i, inFlight t.sink.app i = inFlight s.sink.app i)
    (hpoll : PollInv names t.chans t.sink.app t.poll) : t.Inv names where
  chan := by rw [hchans]; exact h.chan
  sink := hsink
  entries := by rw [hchans]; exact h.entries
  publishing := by rw [hchans]; exact h.publishing
  taken i := by rw [hchans, logged_congr happended, htaken]; exact h.taken i
  covers i := by rw [hchans, logged_congr happended]; exact h.covers i
  named := by rw [happended]; exact h.named
  poll := hpoll

/-- A step in one staging buffer, which may go along with a step of the appender. -/
lemma Inv.of_setChan (h : s.Inv names) {i : ℕ} {c : Channel}
    (hchans : t.chans = (s.setChan i c).chans) (happended : t.sink.appended = s.sink.appended)
    (hsink : Sink.machine.Reachable t.sink) (hinv : c.Inv)
    (hentries : ∀ r ∈ c.finished, IsLogEntry r.bytes)
    (hpublishing : ∀ cur m, c.prod = .publish cur m → IsLogEntry (slice c.buf.storage cur m))
    (hcovers : Channel.Covers c.finished (s.logged i))
    (htaken : ∀ j, (if j = i then c else s.chans j).taken = s.logged j ++ inFlight t.sink.app j)
    (hpoll : PollInv names t.chans t.sink.app t.poll) : t.Inv names := by
  have hat (j : ℕ) : t.chans j = if j = i then c else s.chans j := by
    rw [hchans, setChan_chans]
  refine ⟨fun j => ?_, hsink, fun j => ?_, fun j => ?_, fun j => ?_, fun j => ?_, ?_, hpoll⟩
  · rw [hat]
    split_ifs
    · exact hinv
    · exact h.chan j
  · rw [hat]
    split_ifs
    · exact hentries
    · exact h.entries j
  · rw [hat]
    split_ifs
    · exact hpublishing
    · exact h.publishing j
  · rw [hat, logged_congr happended]
    exact htaken j
  · rw [hat, logged_congr happended]
    split_ifs with hj
    · rw [hj]
      exact hcovers
    · exact h.covers j
  · rw [happended]
    exact h.named

/-- A step in one staging buffer that takes nothing and leaves the consumer where it is. -/
lemma Inv.of_producer (h : s.Inv names) {i : ℕ} {c : Channel}
    (hchans : t.chans = (s.setChan i c).chans) (hsink : t.sink = s.sink) (hpc : t.poll = s.poll)
    (hcons : c.cons = (s.chans i).cons) (htaken : c.taken = (s.chans i).taken) (hinv : c.Inv)
    (hentries : ∀ r ∈ c.finished, IsLogEntry r.bytes)
    (hpublishing : ∀ cur m, c.prod = .publish cur m → IsLogEntry (slice c.buf.storage cur m))
    (hcovers : Channel.Covers c.finished (s.logged i)) : t.Inv names := by
  refine h.of_setChan hchans (by rw [hsink]) (by rw [hsink]; exact h.sink) hinv hentries
    hpublishing hcovers (fun j => ?_) ?_
  · rw [hsink]
    split_ifs with hj
    · rw [htaken, hj]
      exact h.taken i
    · exact h.taken j
  · have hsame (j : ℕ) : ((s.setChan i c).chans j).cons = (s.chans j).cons := by
      rw [setChan_chans]
      split_ifs with hj
      · rw [hcons, hj]
      · rfl
    have hpoll := h.poll
    rw [hchans, hsink, hpc]
    cases hpc : s.poll <;> simp only [hpc, PollInv, hsame] at hpoll ⊢ <;> exact hpoll

/-- A step of the consumer of one staging buffer. -/
lemma Inv.of_consumer (h : s.Inv names) {sb : ℕ} {c : Channel} {a : ConsumerAct}
    (hc : (s.chans sb).consumerStep a = some c) (hchans : t.chans = (s.setChan sb c).chans)
    (happended : t.sink.appended = s.sink.appended) (hsink : Sink.machine.Reachable t.sink)
    (htaken : ∀ j, (if j = sb then c else s.chans j).taken = s.logged j ++ inFlight t.sink.app j)
    (hpoll : PollInv names t.chans t.sink.app t.poll) : t.Inv names := by
  obtain ⟨hprod, hfin, hstorage, -, -⟩ := Channel.consumerStep_frame hc
  refine h.of_setChan hchans happended hsink (Channel.consumerStep_inv (h.chan sb) hc) ?_ ?_ ?_
    htaken hpoll
  · rw [hfin]
    exact h.entries sb
  · rw [hprod, hstorage]
    exact h.publishing sb
  · rw [hfin]
    exact h.covers sb

/-! ### The logging threads -/

/-- Publishing keeps the invariant. -/
lemma inv_log (h : s.Inv names) {i : ℕ} {a : ProducerAct} (ht : s.logStep i a = some t) :
    t.Inv names := by
  simp only [logStep, Option.ite_none_right_eq_some, Option.map_eq_some_iff] at ht
  obtain ⟨⟨-, hentry⟩, c, hc, rfl⟩ := ht
  obtain ⟨hcons, -, -, hfin⟩ := Channel.producerStep_frame hc
  refine h.of_producer rfl rfl rfl hcons (Channel.producerStep_taken (h.chan i) hc)
    (Channel.producerStep_inv (h.chan i) hc) ?_ ?_ ?_
  · rcases hfin with hfin | ⟨cur, m, hpub, hfin⟩ <;> rw [hfin]
    · exact h.entries i
    · intro r hr
      rcases List.mem_append.mp hr with hr | hr
      · exact h.entries i r hr
      · rw [List.mem_singleton.mp hr]
        exact h.publishing i cur m hpub
  · intro cur m hpub
    obtain ⟨rfl, hbuf, nbytes, hres⟩ := Channel.producerStep_publish (h.chan i) hc hpub
    simp only [publishesEntry, hres, decide_eq_true_eq] at hentry
    rwa [hbuf]
  · rcases hfin with hfin | ⟨cur, m, -, hfin⟩ <;> rw [hfin]
    · exact h.covers i
    · exact (h.covers i).append _

/-- So does the end of a thread. -/
lemma inv_exit (h : s.Inv names) {i : ℕ} (ht : s.exitStep i = some t) : t.Inv names := by
  obtain ⟨hchans, hsink, hpoll⟩ : t.chans = (s.setChan i { s.chans i with
      buf := { (s.chans i).buf with shouldDeallocate := true } }).chans ∧
      t.sink = s.sink ∧ t.poll = s.poll := by
    simp only [exitStep] at ht
    split at ht <;> cases ht <;> exact ⟨rfl, rfl, rfl⟩
  have hinv := h.chan i
  refine h.of_producer hchans hsink hpoll rfl rfl ⟨⟨hinv.positions.producer_lt,
    hinv.positions.wrapped⟩, hinv.stream, hinv.consumed_eq, hinv.wrap_boundary, ?_,
    hinv.consumer⟩ (h.entries i) (h.publishing i) (h.covers i)
  have hprod := hinv.producer
  dsimp only
  cases hp : (s.chans i).prod <;> rw [hp] at hprod <;> exact hprod

/-! ### The steps of `poll_` -/

/-- The steps of `poll_`, one for each way on from where it stands. -/
inductive PollStep (names : ℕ → ThreadName) (s : Pipeline) : Pipeline → Prop
  | exit (hpc : s.poll = .loopHead) (hexit : s.bgThreadShouldExit = true) :
      PollStep names s { s with poll := .exited }
  | loop (hpc : s.poll = .loopHead) : PollStep names s { s with poll := .lock }
  | lock (hpc : s.poll = .lock) : PollStep names s { s with poll := .scan 0 }
  | peek {i sb : ℕ} {c : Channel} (hpc : s.poll = .scan i)
      (hc : (s.chans sb).consumerStep .peek = some c) :
      PollStep names s { s.setChan sb c with poll := .peeking i sb }
  | rescan {i : ℕ} (hpc : s.poll = .scan i) : PollStep names s { s with poll := .loopHead }
  | peeking {i sb : ℕ} {c : Channel} (hpc : s.poll = .peeking i sb)
      (hc : (s.chans sb).consumerStep .advance = some c) : PollStep names s (s.setChan sb c)
  | found {i sb pos avail : ℕ} (hpc : s.poll = .peeking i sb)
      (hcons : (s.chans sb).cons = .idle pos avail) :
      PollStep names s { s with poll := .append i sb avail }
  | foundNothing {i sb pos : ℕ} (hpc : s.poll = .peeking i sb)
      (hcons : (s.chans sb).cons = .idle pos 0) :
      PollStep names s { s with poll := .checkDelete i sb }
  | retry {i sb len : ℕ} {k : Sink} (hpc : s.poll = .append i sb len)
      (hk : s.sink.appenderStep (.append sb (names sb).name len) = some k)
      (hout : k.app = .outside) : PollStep names s { s with sink := k }
  | append {i sb len : ℕ} {k : Sink} (hpc : s.poll = .append i sb len)
      (hk : s.sink.appenderStep (.append sb (names sb).name len) = some k)
      (hin : k.app ≠ .outside) : PollStep names s { s with sink := k, poll := .copying i sb }
  | count {i sb src len : ℕ} {name : List UInt8} {k : Sink} (hpc : s.poll = .copying i sb)
      (happ : s.sink.app = .counting src name len) (hk : s.sink.appenderStep .advance = some k) :
      PollStep names s { s with sink := k }
  | finish {i sb : ℕ} {blk : Block} {k : Sink} (hpc : s.poll = .copying i sb)
      (happ : s.sink.app = .copying blk 0) (hk : s.sink.appenderStep .advance = some k) :
      PollStep names s { s with sink := k, poll := .relock i }
  | copy {i sb pos avail remaining : ℕ} {blk : Block} {k : Sink} {c : Channel}
      (hpc : s.poll = .copying i sb) (happ : s.sink.app = .copying blk remaining)
      (hcons : (s.chans sb).cons = .idle pos avail)
      (hk : s.sink.appenderStep (.chunk (slice (s.chans sb).buf.storage pos
        (min releaseThreshold remaining))) = some k)
      (hc : (s.chans sb).consumerStep (.consume (min releaseThreshold remaining)) = some c) :
      PollStep names s { s.setChan sb c with sink := k, poll := .consuming i sb }
  | consume {i sb : ℕ} {c : Channel} (hpc : s.poll = .consuming i sb)
      (hc : (s.chans sb).consumerStep .advance = some c) :
      PollStep names s { s.setChan sb c with poll := .copying i sb }
  | relock {i : ℕ} (hpc : s.poll = .relock i) : PollStep names s { s with poll := .scan (i + 1) }
  | keep {i sb : ℕ} (hpc : s.poll = .checkDelete i sb) :
      PollStep names s { s with poll := .scan (i + 1) }
  | checkDelete {i sb : ℕ} (hpc : s.poll = .checkDelete i sb)
      (hcan : (s.chans sb).buf.shouldDeallocate = true) :
      PollStep names s { s with poll := .delete i sb }
  | delete {i sb : ℕ} {pc : PollPc} (hpc : s.poll = .delete i sb)
      (hto : pc = .loopHead ∨ pc = .scan i) :
      PollStep names s { s with threadBuffers := s.threadBuffers.eraseIdx i, poll := pc }

/-- There are no other steps. -/
lemma pollStep_cases (ht : s.pollStep names = some t) : PollStep names s t := by
  cases hpc : s.poll with
  | loopHead =>
      simp only [pollStep, hpc, Option.some.injEq] at ht
      subst ht
      split_ifs with hexit
      · exact .exit hpc hexit
      · exact .loop hpc
  | lock =>
      simp only [pollStep, hpc, Option.some.injEq] at ht
      subst ht
      exact .lock hpc
  | scan i =>
      simp only [pollStep, hpc] at ht
      split at ht
      · simp only [Option.map_eq_some_iff] at ht
        obtain ⟨c, hc, rfl⟩ := ht
        exact .peek hpc hc
      · cases ht
        exact .rescan hpc
  | peeking i sb =>
      simp only [pollStep, hpc] at ht
      split at ht
      case h_1 pos avail hcons =>
        cases ht
        split_ifs with havail
        · exact .found hpc hcons
        · obtain rfl : avail = 0 := by omega
          exact .foundNothing hpc hcons
      case h_2 =>
        simp only [Option.map_eq_some_iff] at ht
        obtain ⟨c, hc, rfl⟩ := ht
        exact .peeking hpc hc
  | append i sb len =>
      simp only [pollStep, hpc, Option.map_eq_some_iff] at ht
      obtain ⟨k, hk, rfl⟩ := ht
      split
      case h_1 hout =>
        rw [← hpc]
        exact .retry hpc hk hout
      case h_2 hin => exact .append hpc hk hin
  | copying i sb =>
      simp only [pollStep, hpc, copyStep] at ht
      split at ht
      case h_1 happ =>
        simp only [Option.map_eq_some_iff] at ht
        obtain ⟨k, hk, rfl⟩ := ht
        rw [← hpc]
        exact .count hpc happ hk
      case h_2 happ =>
        simp only [Option.map_eq_some_iff] at ht
        obtain ⟨k, hk, rfl⟩ := ht
        exact .finish hpc happ hk
      case h_3 happ hcons =>
        simp only [Option.bind_eq_some_iff, Option.map_eq_some_iff] at ht
        obtain ⟨k, hk, c, hc, rfl⟩ := ht
        exact .copy hpc happ hcons hk hc
      case h_4 => cases ht
  | consuming i sb =>
      simp only [pollStep, hpc, Option.map_eq_some_iff] at ht
      obtain ⟨c, hc, rfl⟩ := ht
      exact .consume hpc hc
  | relock i =>
      simp only [pollStep, hpc, Option.some.injEq] at ht
      subst ht
      exact .relock hpc
  | checkDelete i sb =>
      simp only [pollStep, hpc, Option.some.injEq] at ht
      subst ht
      split_ifs with hcan
      · exact .checkDelete hpc hcan
      · exact .keep hpc
  | delete i sb =>
      simp only [pollStep, hpc, Option.some.injEq] at ht
      subst ht
      refine .delete hpc ?_
      split_ifs
      · exact .inl rfl
      · exact .inr rfl
  | exited => simp [pollStep, hpc] at ht

/-! ### `poll_` and the invariant -/

lemma reachable_appender {k k' : Sink} (h : Sink.machine.Reachable k) {a : AppenderAct}
    (hk : k.appenderStep a = some k') : Sink.machine.Reachable k' :=
  h.step (show Sink.machine.step k (.appender a) = some k' from hk)

/-- What is about to be appended, or copied, continues what was. -/
lemma Inv.covers_exposed (h : s.Inv names) {i pos avail : ℕ}
    (hpc : (s.chans i).cons = .idle pos avail) :
    Channel.Covers (s.chans i).finished
      (s.logged i ++ inFlight s.sink.app i ++ slice (s.chans i).buf.storage pos avail) := by
  have hinv := h.chan i
  have hcons := hinv.consumer
  rw [hpc] at hcons
  obtain ⟨rfl, havail, hbound⟩ := hcons
  have htaken := h.taken i
  rw [hinv.taken_of_committed (by rw [hpc]; rfl)] at htaken
  have hslice := hinv.slice_eq havail
  rw [← htaken]
  refine Channel.covers_of_boundary ?_ ?_
  · rw [hslice]
    exact List.take_prefix _ _
  · rwa [List.length_append, length_slice]

/-- What stands at the consumer when `append` is called is made of whole entries. -/
lemma Inv.wholeEntries_exposed (h : s.Inv names) {i sb len : ℕ} (hpc : s.poll = .append i sb len) :
    (s.chans sb).exposed.length = len ∧
      ∃ es : List (List UInt8), (∀ e ∈ es, IsLogEntry e) ∧ es.flatten = (s.chans sb).exposed := by
  have hpoll := h.poll
  rw [hpc] at hpoll
  obtain ⟨happ, pos, hcons⟩ := hpoll
  have hcovers := h.covers_exposed hcons
  rw [happ, inFlight_outside, List.append_nil] at hcovers
  have hexposed : (s.chans sb).exposed = slice (s.chans sb).buf.storage pos len := by
    rw [Channel.exposed, hcons]
  rw [hexposed]
  exact ⟨length_slice _ _ _, Channel.wholeEntries_of_covers (h.entries sb) (h.covers sb) hcovers⟩

/-- A step of `poll_` that only moves on. -/
lemma Inv.of_poll (h : s.Inv names) (happ : s.sink.app = .outside) (pc : PollPc)
    (hpc : PollInv names s.chans .outside pc) (threadBuffers : List ℕ) :
    Inv names { s with poll := pc, threadBuffers := threadBuffers } :=
  h.of_frame rfl rfl h.sink (fun _ => rfl) (by dsimp only; rw [happ]; exact hpc)

/-- A step of `peek` takes nothing. -/
lemma inv_peek (h : s.Inv names) (happ : s.sink.app = .outside) {i sb : ℕ} {a : ConsumerAct}
    {c : Channel} (hc : (s.chans sb).consumerStep a = some c)
    (ha : ∀ nbytes, a ≠ .consume nbytes) :
    Inv names { s.setChan sb c with poll := .peeking i sb } := by
  refine h.of_consumer hc rfl rfl h.sink (fun j => ?_) happ
  have htaken := Channel.consumerStep_taken hc ha
  split_ifs with hj
  · rw [htaken, hj]
    exact h.taken sb
  · exact h.taken j

/-- Entering `append`: nothing of the block is copied yet. -/
lemma inv_append (h : s.Inv names) {i sb len : ℕ} (hpc : s.poll = .append i sb len) {k : Sink}
    (hk : s.sink.appenderStep (.append sb (names sb).name len) = some k) {pc : PollPc}
    (hto : k.app = .outside ∧ pc = .append i sb len ∨ k.app ≠ .outside ∧ pc = .copying i sb) :
    Inv names { s with sink := k, poll := pc } := by
  have hpoll := h.poll
  rw [hpc] at hpoll
  obtain ⟨happ, pos, hcons⟩ := hpoll
  obtain ⟨happended, hcase⟩ := Sink.append_call (Sink.reachable_poolInv h.sink) happ hk
  refine h.of_frame rfl happended (reachable_appender h.sink hk) (fun j => ?_) ?_
  · dsimp only
    rw [happ]
    rcases hcase with hcase | hcase | hcase <;> simp [hcase, inFlight_copying]
  · dsimp only
    rcases hto with ⟨hout, rfl⟩ | ⟨hin, rfl⟩
    · exact ⟨hout, pos, hcons⟩
    · rcases hcase with hcase | hcase | hcase
      · exact absurd hcase hin
      · exact .inl ⟨len, pos, hcase, hcons⟩
      · exact .inr ⟨[], len, pos, hcase, hcons⟩

/-- In the copy loop the block that is being copied is the one `poll_` has in hand. -/
lemma Inv.copying_block (h : s.Inv names) {i sb : ℕ} (hpc : s.poll = .copying i sb) {blk : Block}
    {remaining : ℕ} (happ : s.sink.app = .copying blk remaining) :
    blk.src = sb ∧ blk.name = (names sb).name ∧
      ∃ pos, (s.chans sb).cons = .idle pos remaining := by
  have hpoll := h.poll
  rw [hpc] at hpoll
  rcases hpoll with ⟨len, pos, happ', -⟩ | ⟨bytes, remaining', pos, happ', hcons⟩
  · rw [happ] at happ'
    cases happ'
  · rw [happ] at happ'
    cases happ'
    exact ⟨rfl, rfl, pos, hcons⟩

/-- The supplementary buffer is counted, and the copy begins. -/
lemma inv_count (h : s.Inv names) {i sb src len : ℕ} {name : List UInt8}
    (hpc : s.poll = .copying i sb) (happ : s.sink.app = .counting src name len) {k : Sink}
    (hk : s.sink.appenderStep .advance = some k) : Inv names { s with sink := k } := by
  have hpoll := h.poll
  rw [hpc] at hpoll
  rcases hpoll with ⟨len', pos, happ', hcons⟩ | ⟨bytes, remaining, pos, happ', -⟩
  · rw [happ] at happ'
    cases happ'
    obtain ⟨happended, hcase⟩ := Sink.append_counting (Sink.reachable_poolInv h.sink) happ hk
    refine h.of_frame rfl happended (reachable_appender h.sink hk) (fun j => ?_) ?_
    · dsimp only
      rw [happ, hcase]
      simp [inFlight_copying]
    · dsimp only
      rw [hcase, hpc]
      exact .inr ⟨[], len, pos, rfl, hcons⟩
  · rw [happ] at happ'
    cases happ'

/-- The block is done: it is what lies between two ends of reservations. -/
lemma inv_finish (h : s.Inv names) {i sb : ℕ} {blk : Block} (hpc : s.poll = .copying i sb)
    (happ : s.sink.app = .copying blk 0) {k : Sink} (hk : s.sink.appenderStep .advance = some k) :
    Inv names { s with sink := k, poll := .relock i } := by
  obtain ⟨rfl, hname, pos, hcons⟩ := h.copying_block hpc happ
  obtain ⟨-, hout, happended, -⟩ := Sink.append_done happ hk
  have hcovers := h.covers_exposed hcons
  rw [happ, inFlight_copying, if_pos rfl, slice_zero, List.append_nil] at hcovers
  have hlogged (j : ℕ) := logged_append
    (t := { s with sink := k, poll := .relock i }) (s := s) happended j
  refine ⟨h.chan, reachable_appender h.sink hk, h.entries, h.publishing, fun j => ?_,
    fun j => ?_, ?_, hout⟩
  · rw [hlogged, hout, inFlight_outside, List.append_nil, h.taken j, happ, inFlight_copying]
  · rw [hlogged]
    by_cases hj : blk.src = j
    · subst hj
      rw [if_pos rfl]
      exact hcovers
    · rw [if_neg hj, List.append_nil]
      exact h.covers j
  · rw [happended]
    intro blk' hblk
    rcases List.mem_append.mp hblk with hblk | hblk
    · exact h.named blk' hblk
    · rw [List.mem_singleton.mp hblk]
      exact ⟨hname, Channel.wholeEntries_of_covers (h.entries _) (h.covers _) hcovers⟩

/-- A chunk is copied and its `consume` called. -/
lemma inv_copy (h : s.Inv names) {i sb pos avail remaining : ℕ} {blk : Block}
    (hpc : s.poll = .copying i sb) (happ : s.sink.app = .copying blk remaining)
    (hcons : (s.chans sb).cons = .idle pos avail) {k : Sink} {c : Channel}
    (hk : s.sink.appenderStep (.chunk (slice (s.chans sb).buf.storage pos
      (min releaseThreshold remaining))) = some k)
    (hc : (s.chans sb).consumerStep (.consume (min releaseThreshold remaining)) = some c) :
    Inv names { s.setChan sb c with sink := k, poll := .consuming i sb } := by
  obtain ⟨rfl, hname, pos', hcons'⟩ := h.copying_block hpc happ
  rw [hcons] at hcons'
  cases hcons'
  obtain ⟨happended, hcase⟩ := Sink.append_chunk (Sink.reachable_poolInv h.sink) happ hk
  obtain ⟨htaken, -, cur, hstore⟩ := Channel.consume_taken (h.chan _) hcons hc
  rw [length_slice] at hcase
  refine h.of_consumer hc rfl happended (reachable_appender h.sink hk) (fun j => ?_) ?_
  · dsimp only
    rw [hcase, inFlight_copying]
    have hold := h.taken j
    rw [happ, inFlight_copying] at hold
    split_ifs with hj hsrc hsrc
    · subst hj
      rw [if_pos rfl] at hold
      rw [htaken, hold, List.append_assoc]
    · exact absurd hj.symm hsrc
    · exact absurd hsrc.symm hj
    · rwa [if_neg hsrc] at hold
  · dsimp only
    rw [hcase, hname]
    exact ⟨_, _, pos, _, _, cur, rfl, by simp [setChan_chans, hstore], rfl⟩

/-- The end of `consume`. -/
lemma inv_consuming (h : s.Inv names) {i sb : ℕ} (hpc : s.poll = .consuming i sb) {c : Channel}
    (hc : (s.chans sb).consumerStep .advance = some c) :
    Inv names { s.setChan sb c with poll := .copying i sb } := by
  have hpoll := h.poll
  rw [hpc] at hpoll
  obtain ⟨bytes, remaining, pos, avail, nbytes, cur, happ, hcons, hrem⟩ := hpoll
  have htaken := Channel.consumerStep_taken hc (by simp)
  have hidle : c.cons = .idle (pos + nbytes) remaining := by
    simp only [Channel.consumerStep, hcons, Option.some.injEq] at hc
    rw [← hc, hrem]
  refine h.of_consumer hc rfl rfl h.sink (fun j => ?_) ?_
  · split_ifs with hj
    · rw [htaken, hj]
      exact h.taken sb
    · exact h.taken j
  · exact .inr ⟨bytes, remaining, pos + nbytes, happ, by simp [setChan_chans, hidle]⟩

/-- A step of `poll_` keeps the invariant. -/
theorem inv_poll (h : s.Inv names) (ht : s.pollStep names = some t) : t.Inv names := by
  have hpoll := h.poll
  cases pollStep_cases ht with
  | exit hpc =>
      rw [hpc] at hpoll
      exact h.of_poll hpoll .exited rfl _
  | loop hpc =>
      rw [hpc] at hpoll
      exact h.of_poll hpoll .lock rfl _
  | lock hpc =>
      rw [hpc] at hpoll
      exact h.of_poll hpoll (.scan 0) rfl _
  | peek hpc hc =>
      rw [hpc] at hpoll
      exact inv_peek h hpoll hc (by simp)
  | rescan hpc =>
      rw [hpc] at hpoll
      exact h.of_poll hpoll .loopHead rfl _
  | @peeking i sb c hpc hc =>
      rw [hpc] at hpoll
      have := inv_peek (i := i) h hpoll hc (by simp)
      rwa [← hpc] at this
  | @found i sb pos avail hpc hcons =>
      rw [hpc] at hpoll
      exact h.of_poll hpoll (.append i sb avail) ⟨rfl, pos, hcons⟩ _
  | @foundNothing i sb pos hpc hcons =>
      rw [hpc] at hpoll
      exact h.of_poll hpoll (.checkDelete i sb) rfl _
  | retry hpc hk hout => exact inv_append h hpc hk (.inl ⟨hout, hpc⟩)
  | append hpc hk hin => exact inv_append h hpc hk (.inr ⟨hin, rfl⟩)
  | count hpc happ hk => exact inv_count h hpc happ hk
  | finish hpc happ hk => exact inv_finish h hpc happ hk
  | copy hpc happ hcons hk hc => exact inv_copy h hpc happ hcons hk hc
  | consume hpc hc => exact inv_consuming h hpc hc
  | @relock i hpc =>
      rw [hpc] at hpoll
      exact h.of_poll hpoll (.scan (i + 1)) rfl _
  | @keep i sb hpc =>
      rw [hpc] at hpoll
      exact h.of_poll hpoll (.scan (i + 1)) rfl _
  | @checkDelete i sb hpc =>
      rw [hpc] at hpoll
      exact h.of_poll hpoll (.delete i sb) rfl _
  | delete hpc hto =>
      rw [hpc] at hpoll
      refine h.of_poll hpoll _ ?_ _
      rcases hto with rfl | rfl <;> rfl

/-- **Every step keeps the invariant.** -/
theorem step_inv (h : s.Inv names) {a : PipelineAct} (ht : s.step names a = some t) :
    t.Inv names := by
  cases a with
  | allocate i =>
      simp only [step, Option.ite_none_right_eq_some, Option.some.injEq] at ht
      obtain ⟨-, rfl⟩ := ht
      exact h.of_frame rfl rfl h.sink (fun _ => rfl) h.poll
  | register i =>
      simp only [step, Option.ite_none_right_eq_some, Option.some.injEq] at ht
      obtain ⟨-, rfl⟩ := ht
      exact h.of_frame rfl rfl h.sink (fun _ => rfl) h.poll
  | log i a => exact inv_log h ht
  | exit i => exact inv_exit h ht
  | poll => exact inv_poll h ht
  | sink a =>
      simp only [step, Option.map_eq_some_iff] at ht
      obtain ⟨k, hk, rfl⟩ := ht
      obtain ⟨happ, happended, -⟩ := Sink.threadStep_frame hk
      refine h.of_frame rfl happended
        (h.sink.step (show Sink.machine.step s.sink (.thread a) = some k from hk))
        (fun i => by rw [happ]) ?_
      dsimp only
      rw [happ]
      exact h.poll
  | destroy =>
      simp only [step, destroyStep] at ht
      split at ht
      · cases ht
        exact h.of_frame rfl rfl h.sink (fun _ => rfl) h.poll
      · split_ifs at ht
        cases ht
        exact h.of_frame rfl rfl h.sink (fun _ => rfl) h.poll
      · cases ht
        split_ifs
        · exact h.of_frame rfl rfl (h.sink.step (a := .stop) rfl) (fun _ => rfl) h.poll
        · exact h.of_frame rfl rfl h.sink (fun _ => rfl) h.poll
      · split_ifs at ht
        cases ht
        exact h.of_frame rfl rfl h.sink (fun _ => rfl) h.poll
      · cases ht

lemma inv_new (names : ℕ → ThreadName) : new.Inv names where
  chan := fun _ => Channel.inv_new
  sink := .refl
  entries := by simp [new, Channel.new]
  publishing := by simp [new, Channel.new]
  taken := fun _ => rfl
  covers := fun _ => ⟨0, Nat.zero_le _, rfl⟩
  named := by simp [new, Sink.new]
  poll := rfl

/-- The invariant holds in every reachable state. -/
theorem reachable_inv (h : (machine names).Reachable s) : s.Inv names :=
  h.invariant (inv_new names) fun hinv hst => step_inv hinv hst

/-! ### What a block becomes -/

/-- A block that was appended stands whole, behind its `ThreadCheckPoint`, at the end of the
current buffer. -/
lemma pollStep_appended (h : s.Inv names) (ht : s.pollStep names = some t) :
    t.sink.appended = s.sink.appended ∨ ∃ blk b, t.sink.appended = s.sink.appended ++ [blk] ∧
      t.sink.currentBuffer = some b ∧ blk.encode <:+ b.data := by
  have hpool := Sink.reachable_poolInv h.sink
  have hcall {i sb len : ℕ} {k : Sink} (hpc : s.poll = .append i sb len)
      (hk : s.sink.appenderStep (.append sb (names sb).name len) = some k) :
      k.appended = s.sink.appended := by
    have hpoll := h.poll
    rw [hpc] at hpoll
    exact (Sink.append_call hpool hpoll.1 hk).1
  cases pollStep_cases ht with
  | retry hpc hk => exact .inl (hcall hpc hk)
  | append hpc hk => exact .inl (hcall hpc hk)
  | count hpc happ hk => exact .inl (Sink.append_counting hpool happ hk).1
  | copy hpc happ hcons hk hc => exact .inl (Sink.append_chunk hpool happ hk).1
  | finish hpc happ hk =>
      obtain ⟨-, hout, happended, hbuf⟩ := Sink.append_done happ hk
      obtain ⟨cur, hcur⟩ := hpool.current
      rw [hcur, Option.map_some] at hbuf
      have hstored := (Sink.reachable_storeInv (reachable_appender h.sink hk)).2.current
      rw [hout] at hstored
      refine .inr ⟨_, _, happended, hbuf, ?_⟩
      rw [(hstored _ hbuf).data_eq, List.flatMap_append, List.flatMap_singleton]
      exact List.suffix_append _ _
  | _ => exact .inl rfl

/-- Only `poll_` appends. -/
lemma step_appended (h : s.Inv names) {a : PipelineAct} (ht : s.step names a = some t) :
    t.sink.appended = s.sink.appended ∨ ∃ blk b, t.sink.appended = s.sink.appended ++ [blk] ∧
      t.sink.currentBuffer = some b ∧ blk.encode <:+ b.data := by
  cases a with
  | poll => exact pollStep_appended h ht
  | sink a =>
      simp only [step, Option.map_eq_some_iff] at ht
      obtain ⟨k, hk, rfl⟩ := ht
      exact .inl (Sink.threadStep_frame hk).2.1
  | log i a =>
      simp only [step, logStep, Option.ite_none_right_eq_some, Option.map_eq_some_iff] at ht
      obtain ⟨-, c, -, rfl⟩ := ht
      exact .inl rfl
  | exit i =>
      simp only [step, exitStep] at ht
      split at ht <;> cases ht <;> exact .inl rfl
  | allocate i =>
      simp only [step, Option.ite_none_right_eq_some, Option.some.injEq] at ht
      obtain ⟨-, rfl⟩ := ht
      exact .inl rfl
  | register i =>
      simp only [step, Option.ite_none_right_eq_some, Option.some.injEq] at ht
      obtain ⟨-, rfl⟩ := ht
      exact .inl rfl
  | destroy =>
      simp only [step, destroyStep] at ht
      split at ht
      · cases ht
        exact .inl rfl
      · split_ifs at ht
        cases ht
        exact .inl rfl
      · cases ht
        split_ifs <;> exact .inl rfl
      · split_ifs at ht
        cases ht
        exact .inl rfl
      · cases ht

/-! ### What was formatted -/

/-- The entries appended from one staging buffer are the first of those published to it. -/
lemma Inv.appended_prefix (h : s.Inv names) (i : ℕ) :
    (s.sink.appended.filter fun blk => blk.src = i).flatMap Block.entries <+: s.publishedBy i := by
  have hdecode : (s.sink.appended.filter fun blk => blk.src = i).flatMap Block.entries =
      decode entrySize (s.logged i) := by
    rw [logged, decode_flatMap]
    · rfl
    · intro blk hblk
      exact (h.named blk (List.mem_of_mem_filter hblk)).2.framed
  obtain ⟨k, -, hlogged⟩ := h.covers i
  have hflatten : s.logged i =
      (((s.chans i).finished.take k).map Reservation.bytes).flatten := by
    rw [hlogged, List.flatMap]
  have hrecords : ∀ e ∈ ((s.chans i).finished.take k).map Reservation.bytes,
      IsRecord entrySize e := by
    intro e he
    obtain ⟨r, hr, rfl⟩ := List.mem_map.mp he
    exact (h.entries i r (List.mem_of_mem_take hr)).isRecord
  rw [hdecode, hflatten, decode_flatten hrecords, publishedBy]
  exact (List.take_prefix k _).map _

/-- What was formatted from one staging buffer comes first in what was published to it. -/
lemma Inv.formattedFrom_prefix (h : s.Inv names) (i : ℕ) :
    s.formattedFrom i <+: s.publishedBy i := by
  have hparse := Sink.reachable_parseInv h.sink fun blk hblk => (h.named blk hblk).2
  have hpre := (hparse.formatted_prefix.filter fun l => decide (l.src = some i)).map LogLine.entry
  rw [Sink.lines_filter] at hpre
  exact hpre.trans (h.appended_prefix i)

/-- What is formatted is an entry of the thread it is attributed to. -/
lemma Inv.attributed (h : s.Inv names) {l : LogLine} (hl : l ∈ s.sink.formatted) :
    ∃ i, l.src = some i ∧ l.name = (names i).name ∧ l.entry ∈ s.publishedBy i := by
  have hparse := Sink.reachable_parseInv h.sink fun blk hblk => (h.named blk hblk).2
  obtain ⟨blk, hblk, hline⟩ := List.mem_flatMap.mp (hparse.formatted_prefix.subset hl)
  obtain ⟨e, -, rfl⟩ := List.mem_map.mp hline
  refine ⟨blk.src, rfl, (h.named blk hblk).1, ?_⟩
  refine (h.formattedFrom_prefix blk.src).subset ?_
  exact List.mem_map_of_mem (List.mem_filter.mpr ⟨hl, by simp [Block.line]⟩)

/-- **From publishing to formatting.** In every reachable state, for every thread, the entries
formatted from its staging buffer are the first of those it published, each attributed to its
name; what is handed to `append` and every block appended is made of whole entries of one
thread, and such a block stands behind its `ThreadCheckPoint` in one buffer; the parse loops
never read past a buffer, leave it exactly at its end, and do leave it. -/
theorem endToEnd (h : (machine names).Reachable s) :
    (∀ i, s.formattedFrom i <+: s.publishedBy i) ∧
      (∀ l ∈ s.sink.formatted,
        ∃ i, l.src = some i ∧ l.name = (names i).name ∧ l.entry ∈ s.publishedBy i) ∧
      (∀ i sb len, s.poll = .append i sb len → (s.chans sb).exposed.length = len ∧
        ∃ es : List (List UInt8), (∀ e ∈ es, IsLogEntry e) ∧
          es.flatten = (s.chans sb).exposed) ∧
      (∀ blk ∈ s.sink.appended, blk.name = (names blk.src).name ∧ blk.WholeEntries) ∧
      (∀ a t, s.step names a = some t → t.sink.appended = s.sink.appended ∨
        ∃ blk b, t.sink.appended = s.sink.appended ++ [blk] ∧
          t.sink.currentBuffer = some b ∧ blk.encode <:+ b.data) ∧
      (∀ b ∈ s.sink.held, b.blocks ⊆ s.sink.appended ∧
        (b.data = b.blocks.flatMap Block.encode ∨ s.sink.currentBuffer = some b ∧
          b.data = b.blocks.flatMap Block.encode ++ Sink.partialBlock s.sink.app)) ∧
      s.sink.pc ≠ .fault ∧
      (∀ i k bufLen pos, s.sink.pc = .parse i k bufLen pos →
        ∃ b, s.sink.buffersToWrite[i]? = some b ∧ (0 < bufLen ∨ bufLen = 0 ∧ pos = b.length)) ∧
      (∀ i, (∃ k bufLen pos, s.sink.pc = .parse i k bufLen pos) ∨
          (∃ k bufLen hdr pos remaining, s.sink.pc = .entries i k bufLen hdr pos remaining) →
        ∃ k, Sink.machine.Reaches Sink.sinkAlone s.sink k ∧ k.pc = .buffer (i + 1)) := by
  have hinv := reachable_inv h
  have hwhole : ∀ blk ∈ s.sink.appended, blk.WholeEntries := fun blk hblk => (hinv.named blk hblk).2
  obtain ⟨hpool, hstore⟩ := Sink.reachable_storeInv hinv.sink
  refine ⟨hinv.formattedFrom_prefix, fun l hl => hinv.attributed hl,
    fun i sb len hpc => hinv.wholeEntries_exposed hpc, hinv.named,
    fun a t ht => step_appended hinv ht, fun b hb => Sink.held_stored hpool hstore hb,
    fun hfault => ?_, fun i k bufLen pos hpc => ?_,
    fun i hpc => Sink.parse_terminates hinv.sink hwhole hpc⟩
  · have := Sink.reachable_parseInv hinv.sink hwhole
    rw [hfault] at this
    exact this
  · obtain ⟨b, t, hb, -, -, hcase⟩ := Sink.parse_step hinv.sink hwhole hpc
    refine ⟨b, hb, ?_⟩
    rcases hcase with ⟨hpos, -⟩ | ⟨hzero, hend, -⟩
    · exact .inl hpos
    · exact .inr ⟨hzero, hend⟩

/-- The first thread is called `A`, every other one `B`. -/
def sampleNames : ℕ → ThreadName
  | 0 => ⟨[65], by decide, by decide⟩
  | _ + 1 => ⟨[66], by decide, by decide⟩

/-- The thread `i` publishes the entry `e` at `pos`, in space that is zero. -/
def logSample (i pos : ℕ) (e : List UInt8) : List PipelineAct :=
  .log i (.reserve e.length true) ::
    ((e.zipIdx pos).filter (·.1 ≠ 0)).map (fun x => .log i (.fill x.2 x.1)) ++
      [.log i (.finish e.length), .log i .advance]

/-- The thread `0` publishes one entry. -/
def publishSample : List PipelineAct :=
  [.allocate 0, .register 0] ++ logSample 0 0 Sink.sampleEntry

/-- The two threads publish an entry each and the first one another. All are appended, and the
second thread publishes one more. What was appended is swapped out after a time-out and
formatted. -/
def sampleRun : List PipelineAct :=
  [.allocate 1, .allocate 0, .register 0, .register 1] ++
    logSample 0 0 (1 :: Sink.sampleEntry.tail) ++ logSample 1 0 (2 :: Sink.sampleEntry.tail) ++
    logSample 0 24 (3 :: Sink.sampleEntry.tail) ++ List.replicate 19 .poll ++
    logSample 1 24 (4 :: Sink.sampleEntry.tail) ++
    [.sink .advance, .sink .advance, .sink .advance, .sink (.wake true)] ++
    List.replicate 8 (.sink .advance)

set_option maxRecDepth 4000 in
theorem endToEnd_sampleRun : ∃ s, (machine sampleNames).exec new sampleRun = some s ∧
    s.formattedFrom 0 = [1 :: Sink.sampleEntry.tail, 3 :: Sink.sampleEntry.tail] ∧
    s.formattedFrom 1 = [2 :: Sink.sampleEntry.tail] ∧
    (s.publishedBy 1).length = 2 ∧ (∀ i, s.formattedFrom i <+: s.publishedBy i) ∧
    (∀ l ∈ s.sink.formatted,
      ∃ i, l.src = some i ∧ l.name = (sampleNames i).name ∧ l.entry ∈ s.publishedBy i) ∧
    s.sink.pc ≠ .fault := by
  refine ⟨_, rfl, rfl, rfl, rfl, ?_⟩
  have hall := endToEnd (Machine.reachable_of_exec
    (show (machine sampleNames).exec new sampleRun = some _ from rfl))
  exact ⟨hall.1, hall.2.1, hall.2.2.2.2.2.2.1⟩

end Pipeline

end ConstexprFmtStr
