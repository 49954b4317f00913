import Mathlib.Tactic
import ConstexprFmtStr.Lib.Framing
import ConstexprFmtStr.Runtime.BufferPool

/-!
What the sink thread reads back out of the buffers.

* `IsLogEntry`, `Block.WholeEntries`: a log entry as `TZ_LOG` publishes it, and a block that is
  a concatenation of them.
* `SinkBuffer.Stored`: a buffer holds its blocks one after another, each behind its
  `ThreadCheckPoint`. `Sink.StoreInv` says so of every buffer of the pool, in every reachable
  state (`reachable_storeInv`).
* `Sink.ParseInv`: as long as only whole entries are appended, the two parse loops stand at the
  ends of blocks and of entries, and what was formatted and what is still stored are together
  what was appended (`reachable_parseInv`).
* `parse_terminates`: the loops leave a buffer, at its very end.
-/

namespace ConstexprFmtStr

open Word Framing

/-! ### Entries and blocks -/

/-- `entrySize`, read at its offset in `OneLogEntry`. -/
def entrySize (bs : List UInt8) : ℕ := leValue ((bs.drop 8).take 4)

/-- A log entry: a `OneLogEntry` with its arguments, `entrySize` bytes in all. -/
structure IsLogEntry (e : List UInt8) : Prop where
  sizeof_le : sizeofOneLogEntry ≤ e.length
  entrySize_eq : entrySize e = e.length

/-- The size of an entry can be read whatever follows it. -/
lemma entrySize_append {e : List UInt8} (h : sizeofOneLogEntry ≤ e.length) (rest : List UInt8) :
    entrySize (e ++ rest) = entrySize e := by
  have hlen : 12 ≤ e.length := le_trans (by decide) h
  rw [entrySize, entrySize, List.drop_append_of_le_length (by omega),
    List.take_append_of_le_length (by rw [List.length_drop]; omega)]

lemma IsLogEntry.isRecord {e : List UInt8} (h : IsLogEntry e) : IsRecord entrySize e where
  ne_nil := fun hnil => by
    have := h.sizeof_le
    rw [hnil] at this
    exact absurd this (by decide)
  size_append := fun rest => by rw [entrySize_append h.sizeof_le, h.entrySize_eq]

namespace Block

/-- The bytes of a block in a `SinkBuffer`. -/
def encode (b : Block) : List UInt8 := threadCheckPoint b.name b.bytes.length ++ b.bytes

/-- The name fits `_name` and the block a staging buffer. -/
structure Sane (b : Block) : Prop where
  name_length : b.name.length < 16
  name_nul : 0 ∉ b.name
  length_le : b.bytes.length ≤ stagingBufferSize

/-- The block is a concatenation of whole entries. -/
def WholeEntries (b : Block) : Prop :=
  ∃ es : List (List UInt8), (∀ e ∈ es, IsLogEntry e) ∧ es.flatten = b.bytes

/-- The entries of a block. -/
def entries (b : Block) : List (List UInt8) := decode entrySize b.bytes

/-- An entry of the block, as it gets formatted. -/
def line (b : Block) (e : List UInt8) : LogLine := ⟨some b.src, b.name, e⟩

/-- The entries of the block, as they get formatted. -/
def lines (b : Block) : List LogLine := b.entries.map b.line

lemma WholeEntries.framed {b : Block} (h : b.WholeEntries) : Framed entrySize b.bytes := by
  obtain ⟨es, hes, heq⟩ := h
  exact ⟨es, fun e he => (hes e he).isRecord, heq⟩

/-- The entries of a block of whole entries. -/
lemma WholeEntries.entries_spec {b : Block} (h : b.WholeEntries) :
    (∀ e ∈ b.entries, IsLogEntry e) ∧ b.entries.flatten = b.bytes := by
  obtain ⟨es, hes, heq⟩ := h
  have hentries : b.entries = es := by
    rw [entries, ← heq, decode_flatten fun e he => (hes e he).isRecord]
  rw [hentries]
  exact ⟨hes, heq⟩

lemma Sane.length_encode {b : Block} (h : b.Sane) :
    b.encode.length = sizeofThreadCheckPoint + b.bytes.length := by
  rw [encode, List.length_append,
    length_threadCheckPoint (h.name_length.le.trans (by norm_num))]

end Block

/-! ### Reading at a place where the content is known -/

/-- What stands at `pos` can be read, whatever stands before and behind. -/
lemma SinkBuffer.read_of_drop (b : SinkBuffer) (pos : ℕ) {x rest : List UInt8}
    (h : b.data.drop pos = x ++ rest) (hpos : pos ≤ b.length) :
    b.read pos x.length = some x := by
  have hlen := congrArg List.length h
  rw [List.length_drop, List.length_append] at hlen
  rw [SinkBuffer.length] at hpos
  rw [read, if_pos (by rw [SinkBuffer.length]; omega), h, List.take_left' rfl]

/-- The three fields of a `ThreadCheckPoint`, each at its offset. -/
lemma read_threadCheckPoint {b : SinkBuffer} {hdr : ℕ} {blk : Block} {rest : List UInt8}
    (hsane : blk.Sane) (h : b.data.drop hdr = blk.encode ++ rest) (hpos : hdr ≤ b.length) :
    b.read hdr 20 = some (blk.name ++ List.replicate (20 - blk.name.length) 0) ∧
      b.read (hdr + 20) 4 = some (leBytes 4 blk.bytes.length) ∧
      b.data.drop (hdr + sizeofThreadCheckPoint) = blk.bytes ++ rest ∧
      hdr + sizeofThreadCheckPoint ≤ b.length := by
  have hname : (blk.name ++ List.replicate (20 - blk.name.length) 0).length = 20 := by
    have := hsane.name_length
    simp
    omega
  have h₀ : b.data.drop hdr = (blk.name ++ List.replicate (20 - blk.name.length) 0) ++
      (leBytes 4 blk.bytes.length ++ (blk.bytes ++ rest)) := by
    rw [h]
    simp [Block.encode, threadCheckPoint]
  have h₁ : b.data.drop (hdr + 20) = leBytes 4 blk.bytes.length ++ (blk.bytes ++ rest) := by
    rw [← List.drop_drop, h₀, List.drop_left' hname]
  have h₂ : b.data.drop (hdr + sizeofThreadCheckPoint) = blk.bytes ++ rest := by
    rw [show hdr + sizeofThreadCheckPoint = hdr + 20 + 4 from rfl, ← List.drop_drop, h₁,
      List.drop_left' (length_leBytes 4 _)]
  have hlen := congrArg List.length h
  rw [List.length_drop, List.length_append, hsane.length_encode] at hlen
  rw [SinkBuffer.length] at hpos ⊢
  have hle : hdr + sizeofThreadCheckPoint ≤ b.data.length := by
    have : 0 < sizeofThreadCheckPoint := by decide
    omega
  refine ⟨?_, ?_, h₂, hle⟩
  · have := b.read_of_drop hdr h₀ hpos
    rwa [hname] at this
  · have := b.read_of_drop (hdr + 20) h₁ (by
      rw [SinkBuffer.length]
      exact le_trans (Nat.add_le_add_left (by decide) hdr) hle)
    rwa [length_leBytes] at this

/-- The name printed is the name stored. -/
lemma Block.Sane.takeWhile_name {blk : Block} (h : blk.Sane) (n : ℕ) :
    (blk.name ++ List.replicate n 0).takeWhile (· ≠ 0) = blk.name := by
  have hall : ∀ c ∈ blk.name, decide (c ≠ 0) = true := by
    intro c hc
    rw [decide_eq_true_eq]
    rintro rfl
    exact h.name_nul hc
  rw [List.takeWhile_append_of_pos hall]
  cases n <;> simp [List.replicate_succ]

/-- A length up to the size of a staging buffer is kept by an `int`. -/
lemma wrapS_of_le {x : ℤ} (hlo : 0 ≤ x) (hhi : x ≤ largeBuffer) : wrapS 32 x = x := by
  have hlarge : (largeBuffer : ℤ) = 134217728 := rfl
  exact wrapS_of_bounds (by omega) (by omega)

lemma stagingBufferSize_le_largeBuffer : stagingBufferSize ≤ largeBuffer := by
  norm_num [stagingBufferSize, largeBuffer]

/-- The block size read back. -/
lemma Block.Sane.wrapS_blockSize {blk : Block} (h : blk.Sane) :
    wrapS 32 (leValue (leBytes 4 blk.bytes.length)) = blk.bytes.length := by
  have hle := h.length_le.trans stagingBufferSize_le_largeBuffer
  have hlarge : largeBuffer < 256 ^ 4 := by norm_num [largeBuffer]
  rw [leValue_leBytes (by omega)]
  exact wrapS_of_le (by omega) (by exact_mod_cast hle)

/-! ### What the buffers hold -/

/-- The buffer holds blocks of the log, one after another, each behind its
`ThreadCheckPoint`. -/
structure SinkBuffer.Stored (log : List Block) (b : SinkBuffer) : Prop where
  data_eq : b.data = b.blocks.flatMap Block.encode
  logged : b.blocks ⊆ log
  length_le : b.length ≤ largeBuffer

lemma SinkBuffer.Stored.mono {log log' : List Block} {b : SinkBuffer} (h : b.Stored log)
    (hlog : log ⊆ log') : b.Stored log' :=
  ⟨h.data_eq, List.Subset.trans h.logged hlog, h.length_le⟩

lemma SinkBuffer.stored_of_empty {log : List Block} {b : SinkBuffer} (hdata : b.data = [])
    (hblocks : b.blocks = []) : b.Stored log :=
  ⟨by rw [hdata, hblocks]; rfl, by rw [hblocks]; exact List.nil_subset _,
    by rw [SinkBuffer.length, hdata]; exact Nat.zero_le _⟩

namespace Sink

attribute [local simp] appenderStep threadStep

variable {s t : Sink}

/-- What the current buffer holds at each point of `append`: whole blocks, and in the course of
a copy the header of the last one with the bytes copied so far. -/
def CurrentInv (s : Sink) : AppenderPc → Prop
  | .outside => ∀ b, s.currentBuffer = some b → b.Stored s.appended
  | .counting _ name len => (name.length < 16 ∧ 0 ∉ name) ∧ len ≤ stagingBufferSize ∧
      ∀ b, s.currentBuffer = some b → b.Stored s.appended
  | .copying blk remaining => (blk.name.length < 16 ∧ 0 ∉ blk.name) ∧
      blk.bytes.length + remaining ≤ stagingBufferSize ∧
      ∀ b, s.currentBuffer = some b → b.blocks ⊆ s.appended ∧
        b.data = b.blocks.flatMap Block.encode ++
          (threadCheckPoint blk.name (blk.bytes.length + remaining) ++ blk.bytes)
  | _ => True

/-- **Every buffer of the pool holds whole blocks**, but for the one being written. -/
structure StoreInv (s : Sink) : Prop where
  queued : ∀ b ∈ s.buffers, b.Stored s.appended
  batch : ∀ b ∈ s.buffersToWrite, b.Stored s.appended
  fresh : ∀ b, s.nextBuffer = some b ∨ s.newBuffer1 = some b ∨ s.newBuffer2 = some b →
    b.blocks = []
  current : s.CurrentInv s.app
  sane : ∀ blk ∈ s.appended, blk.Sane

/-- The header of a block goes behind the blocks that are there. -/
lemma currentInv_beginBlock {cur : SinkBuffer} (hcur : cur.Stored s.appended) {src len : ℕ}
    {name : List UInt8} (hname : name.length < 16 ∧ 0 ∉ name) (hlen : len ≤ stagingBufferSize) :
    (s.beginBlock cur src name len).CurrentInv (.copying ⟨src, name, []⟩ len) := by
  refine ⟨hname, by simpa using hlen, fun b hb => ?_⟩
  cases hb
  exact ⟨hcur.logged, by simp [SinkBuffer.write, hcur.data_eq]⟩

/-- Entering `append`. -/
lemma storeInv_append (hpool : s.PoolInv) (h : s.StoreInv) (happ : s.app = .outside)
    {src len : ℕ} {name : List UInt8} (hname : name.length < 16 ∧ 0 ∉ name)
    (hlen : len ≤ stagingBufferSize) : (s.append src name len).StoreInv := by
  obtain ⟨cur, hcur⟩ := hpool.current
  have hstored : cur.Stored s.appended := by
    have := h.current
    rw [happ] at this
    exact this cur hcur
  have hqueued : ∀ b ∈ s.buffers ++ [cur], b.Stored s.appended := by
    intro b hb
    rcases List.mem_append.mp hb with hb | hb
    · exact h.queued b hb
    · rw [List.mem_singleton.mp hb]
      exact hstored
  rcases append_cases hcur src name len with ⟨-, heq⟩ | ⟨next, hnext, heq⟩ | ⟨hnext, -, heq⟩ |
    heq <;> rw [heq]
  · exact ⟨h.queued, h.batch, h.fresh, currentInv_beginBlock hstored hname hlen, h.sane⟩
  · have hempty : next.Stored s.appended :=
      SinkBuffer.stored_of_empty (hpool.next_empty next hnext) (h.fresh next (.inl hnext))
    refine ⟨hqueued, h.batch, fun b hb => h.fresh b (.inr ?_),
      currentInv_beginBlock hempty hname hlen, h.sane⟩
    simpa [beginBlock] using hb
  · refine ⟨hqueued, h.batch, h.fresh, ⟨hname, hlen, fun b hb => ?_⟩, h.sane⟩
    cases hb
    exact SinkBuffer.stored_of_empty rfl rfl
  · exact h

/-- A step of the appender keeps what the buffers hold. -/
lemma appenderStep_storeInv (hpool : s.PoolInv) (h : s.StoreInv) {a : AppenderAct}
    (ht : s.appenderStep a = some t) : t.StoreInv := by
  have hcurrent := h.current
  cases appenderStep_cases ht with
  | append happ hname hlen => exact storeInv_append hpool h happ hname hlen
  | count happ hcur =>
      rw [happ] at hcurrent
      obtain ⟨hname, hlen, hstored⟩ := hcurrent
      exact ⟨h.queued, h.batch, h.fresh, currentInv_beginBlock (hstored _ hcur) hname hlen, h.sane⟩
  | @copy blk remaining bytes cur happ hpos hbytes hcur hroom =>
      rw [happ] at hcurrent
      obtain ⟨hname, hlen, hstored⟩ := hcurrent
      obtain ⟨hlogged, hdata⟩ := hstored cur hcur
      have hle : bytes.length ≤ remaining := hbytes.le.trans (min_le_right _ _)
      refine ⟨h.queued, h.batch, h.fresh, ⟨hname, ?_, fun b hb => ?_⟩, h.sane⟩
      · simp only [List.length_append]
        omega
      · cases hb
        refine ⟨hlogged, ?_⟩
        have hsum : blk.bytes.length + bytes.length + (remaining - bytes.length) =
            blk.bytes.length + remaining := by omega
        simp [SinkBuffer.write, hdata, hsum]
  | copyFails => exact ⟨h.queued, h.batch, h.fresh, trivial, h.sane⟩
  | @finish blk happ =>
      rw [happ] at hcurrent
      obtain ⟨hname, hlen, hstored⟩ := hcurrent
      have hmono : s.appended ⊆ s.appended ++ [blk] := List.subset_append_left _ _
      refine ⟨fun b hb => (h.queued b hb).mono hmono, fun b hb => (h.batch b hb).mono hmono,
        h.fresh, fun b hb => ?_, fun b hb => ?_⟩
      · obtain ⟨cur, hcur, rfl⟩ := Option.map_eq_some_iff.mp hb
        obtain ⟨hlogged, hdata⟩ := hstored cur hcur
        refine ⟨by simp [hdata, Block.encode], ?_, ?_⟩
        · intro b hb
          rcases List.mem_append.mp hb with hb | hb
          · exact hmono (hlogged hb)
          · exact List.mem_append_right _ hb
        · have hroom := hpool.appender
          rw [happ] at hroom
          obtain ⟨b, hb, hlt⟩ := hroom
          rw [hcur] at hb
          cases hb
          exact hlt.le
      · rcases List.mem_append.mp hb with hb | hb
        · exact h.sane b hb
        · rw [List.mem_singleton.mp hb]
          exact ⟨hname.1, hname.2, hlen⟩
  | crash => exact ⟨h.queued, h.batch, h.fresh, trivial, h.sane⟩

lemma StoreInv.of_pc (h : s.StoreInv) (pc : SinkPc) : StoreInv { s with pc := pc } :=
  ⟨h.queued, h.batch, h.fresh, h.current, h.sane⟩

/-- The queue becomes the batch. -/
lemma storeInv_swapSection (hpool : s.PoolInv) (h : s.StoreInv) (happ : s.app = .outside)
    (hspares : s.sparesGiven = 0) (hbatch : s.buffersToWrite = []) (timeout : Bool) :
    (s.swapSection timeout).StoreInv := by
  obtain ⟨cur, hcur⟩ := hpool.current
  obtain ⟨⟨b1, hb1⟩, b2, hb2⟩ := spares_of_sparesGiven hspares
  have hstored : ∀ b, s.currentBuffer = some b → b.Stored s.appended := by
    have := h.current
    rwa [happ] at this
  have hempty1 : b1.Stored s.appended := SinkBuffer.stored_of_empty
    (hpool.spares_empty b1 (.inl hb1)) (h.fresh b1 (.inr (.inl hb1)))
  have hcurrent : (if worthSwapping cur timeout then b1 else cur).Stored s.appended := by
    split_ifs
    · exact hempty1
    · exact hstored cur hcur
  rw [swapSection_eq hcur hb1 hb2 hbatch]
  refine ⟨by simp, fun b hb => ?_, fun b hb => ?_, ?_, h.sane⟩
  · rcases List.mem_append.mp hb with hb | hb
    · exact h.queued b hb
    · split_ifs at hb
      · rw [List.mem_singleton.mp hb]
        exact hstored cur hcur
      · simp at hb
  · simp only at hb
    rcases hb with hb | hb | hb
    · cases hnext : s.nextBuffer with
      | none =>
          simp [hnext] at hb
          subst hb
          exact h.fresh _ (.inr (.inr hb2))
      | some next =>
          simp [hnext] at hb
          subst hb
          exact h.fresh _ (.inl hnext)
    · split_ifs at hb
      cases hb
      exact h.fresh _ (.inr (.inl hb1))
    · split_ifs at hb
      cases hb
      exact h.fresh _ (.inr (.inr hb2))
  · simp only [happ]
    intro b hb
    cases hb
    exact hcurrent

/-- A step of the sink thread keeps what the buffers hold. -/
lemma threadStep_storeInv (hpool : s.PoolInv) (h : s.StoreInv) {a : SinkThreadAct}
    (ht : s.threadStep a = some t) : t.StoreInv := by
  have hth := hpool.thread
  cases threadStep_cases ht with
  | start =>
      refine ⟨h.queued, h.batch, fun b hb => ?_, h.current, h.sane⟩
      rcases hb with hb | hb | hb
      · exact h.fresh b (.inl hb)
      · cases hb
        rfl
      · cases hb
        rfl
  | swap hpc happ =>
      have hidle : s.sparesGiven = 0 ∧ s.buffersToWrite = [] := by
        rcases hpc with hpc | hpc <;> rw [hpc] at hth <;> exact hth
      exact storeInv_swapSection hpool h happ hidle.1 hidle.2 _
  | parseEntry =>
      simp only [parseEntry]
      split
      · split
        · split_ifs
          · exact ⟨h.queued, h.batch, h.fresh, h.current, h.sane⟩
          · exact h.of_pc _
        · exact h.of_pc _
      · exact h.of_pc _
  | resize =>
      exact ⟨h.queued, fun b hb => h.batch b (List.mem_of_mem_take hb), h.fresh, h.current, h.sane⟩
  | refill1 _ hrefill =>
      obtain ⟨-, hb, hsub⟩ := refill_some hrefill
      refine ⟨h.queued, fun b' hb' => h.batch b' (hsub hb'), fun b' hb' => ?_, h.current, h.sane⟩
      rcases hb' with hb' | hb' | hb'
      · exact h.fresh b' (.inl hb')
      · cases hb'
        exact hb.elim (fun hb => h.fresh _ (.inr (.inl hb))) And.right
      · exact h.fresh b' (.inr (.inr hb'))
  | refill2 _ hrefill =>
      obtain ⟨-, hb, hsub⟩ := refill_some hrefill
      refine ⟨h.queued, fun b' hb' => h.batch b' (hsub hb'), fun b' hb' => ?_, h.current, h.sane⟩
      rcases hb' with hb' | hb' | hb'
      · exact h.fresh b' (.inl hb')
      · exact h.fresh b' (.inr (.inl hb'))
      · cases hb'
        exact hb.elim (fun hb => h.fresh _ (.inr (.inr hb))) And.right
  | clear => exact ⟨h.queued, by simp, h.fresh, h.current, h.sane⟩
  | resetCount => exact ⟨h.queued, h.batch, h.fresh, h.current, h.sane⟩
  | _ => exact h.of_pc _

lemma storeInv_new : new.StoreInv where
  queued := by simp [new]
  batch := by simp [new]
  fresh := fun b hb => by
    rcases hb with hb | hb | hb <;> cases hb
    rfl
  current := fun b hb => by
    cases hb
    exact SinkBuffer.stored_of_empty rfl rfl
  sane := by simp [new]

lemma step_storeInv (hpool : s.PoolInv) (h : s.StoreInv) {a : SinkAct} (ht : s.step a = some t) :
    t.StoreInv := by
  cases a with
  | appender a => exact appenderStep_storeInv hpool h ht
  | thread a => exact threadStep_storeInv hpool h ht
  | stop =>
      cases ht
      exact ⟨h.queued, h.batch, h.fresh, h.current, h.sane⟩

/-- In every reachable state every buffer holds whole blocks. -/
theorem reachable_storeInv (h : machine.Reachable s) : s.PoolInv ∧ s.StoreInv :=
  Machine.Reachable.invariant (I := fun s => s.PoolInv ∧ s.StoreInv) h ⟨poolInv_new, storeInv_new⟩
    fun hinv hst => ⟨step_poolInv hinv.1 hst, step_storeInv hinv.1 hinv.2 hst⟩

/-! ### The parse loops -/

/-- The blocks behind the batch: queued, and in the current buffer. -/
def queuedBlocks (s : Sink) : List Block :=
  s.buffers.flatMap SinkBuffer.blocks ++ s.currentBuffer.toList.flatMap SinkBuffer.blocks

/-- The blocks of the batch from its buffer `i` on. -/
def batchFrom (s : Sink) (i : ℕ) : List Block :=
  (s.buffersToWrite.drop i).flatMap SinkBuffer.blocks

/-- What was formatted, then the lines `todo`, then the blocks `rest` of the batch and those
behind it, is what was appended. -/
def Balanced (s : Sink) (todo : List LogLine) (rest : List Block) : Prop :=
  s.formatted ++ (todo ++ (rest ++ s.queuedBlocks).flatMap Block.lines) =
    s.appended.flatMap Block.lines

/-- The outer loop stands behind the first `k` blocks of the buffer. -/
structure Cursor (b : SinkBuffer) (k : ℕ) (bufLen : ℤ) (pos : ℕ) : Prop where
  le : k ≤ b.blocks.length
  pos_eq : pos = ((b.blocks.take k).flatMap Block.encode).length
  bufLen_eq : bufLen = b.length - pos

/-- What holds at each point of `threadFunc` while only whole entries are appended. -/
def ParseInv (s : Sink) : SinkPc → Prop
  | .buffer i => s.Balanced [] (s.batchFrom i)
  | .parse i k bufLen pos => ∃ b, s.buffersToWrite[i]? = some b ∧ Cursor b k bufLen pos ∧
      s.Balanced [] (b.blocks.drop k ++ s.batchFrom (i + 1))
  | .entries i k bufLen hdr pos remaining => ∃ b blk done todo,
      s.buffersToWrite[i]? = some b ∧ b.blocks[k]? = some blk ∧ Cursor b k bufLen hdr ∧
        blk.entries = done ++ todo ∧
        pos = hdr + sizeofThreadCheckPoint + done.flatten.length ∧
        remaining = todo.flatten.length ∧
        s.Balanced (todo.map blk.line) (b.blocks.drop (k + 1) ++ s.batchFrom (i + 1))
  | .fault => False
  | _ => s.Balanced [] []

/-- More blocks in the log and behind the batch. -/
lemma Balanced.append {todo : List LogLine} {rest new : List Block} (h : s.Balanced todo rest)
    (hformatted : t.formatted = s.formatted) (happended : t.appended = s.appended ++ new)
    (hqueued : t.queuedBlocks = s.queuedBlocks ++ new) : t.Balanced todo rest := by
  rw [Balanced] at h ⊢
  rw [hformatted, happended, hqueued]
  simp only [List.flatMap_append] at h ⊢
  rw [← h]
  simp

/-- The appender adds blocks to the log and behind the batch alike. -/
lemma append_queuedBlocks (hpool : s.PoolInv) (hstore : s.StoreInv) (src : ℕ)
    (name : List UInt8) (len : ℕ) :
    (s.append src name len).queuedBlocks = s.queuedBlocks ∧
      (s.append src name len).appended = s.appended ∧
      (s.append src name len).formatted = s.formatted ∧
      (s.append src name len).buffersToWrite = s.buffersToWrite := by
  obtain ⟨cur, hcur⟩ := hpool.current
  rcases append_cases hcur src name len with ⟨-, heq⟩ | ⟨next, hnext, heq⟩ | ⟨hnext, -, heq⟩ |
    heq <;> rw [heq]
  · simp [queuedBlocks, beginBlock, hcur, SinkBuffer.write]
  · have hempty := hstore.fresh next (.inl hnext)
    simp [queuedBlocks, beginBlock, hcur, SinkBuffer.write, hempty]
  · simp [queuedBlocks, hcur, SinkBuffer.new]
  · simp

lemma appenderStep_queuedBlocks (hpool : s.PoolInv) (hstore : s.StoreInv) {a : AppenderAct}
    (ht : s.appenderStep a = some t) :
    ∃ new, t.queuedBlocks = s.queuedBlocks ++ new ∧ t.appended = s.appended ++ new ∧
      t.formatted = s.formatted ∧ t.buffersToWrite = s.buffersToWrite := by
  cases appenderStep_cases ht with
  | append => exact ⟨[], by simpa using append_queuedBlocks hpool hstore _ _ _⟩
  | count _ hcur => exact ⟨[], by simp [queuedBlocks, beginBlock, hcur, SinkBuffer.write]⟩
  | copy _ _ _ hcur => exact ⟨[], by simp [queuedBlocks, hcur, SinkBuffer.write]⟩
  | @finish blk =>
      obtain ⟨cur, hcur⟩ := hpool.current
      exact ⟨[blk], by simp [queuedBlocks, hcur]⟩
  | _ => exact ⟨[], by simp [queuedBlocks]⟩

/-- A step of the appender keeps what the parse loops rely on. -/
lemma appenderStep_parseInv (hpool : s.PoolInv) (hstore : s.StoreInv) (h : s.ParseInv s.pc)
    {a : AppenderAct} (ht : s.appenderStep a = some t) : t.ParseInv t.pc := by
  obtain ⟨new, hqueued, happended, hformatted, hbatch⟩ := appenderStep_queuedBlocks hpool hstore ht
  have hmono {todo : List LogLine} {rest : List Block} (hb : s.Balanced todo rest) :
      t.Balanced todo rest := hb.append hformatted happended hqueued
  have hfrom (i : ℕ) : t.batchFrom i = s.batchFrom i := by rw [batchFrom, hbatch, batchFrom]
  rw [(appenderStep_frame ht).1]
  cases hpc : s.pc <;> simp only [hpc, ParseInv, hbatch, hfrom] at h ⊢
  case parse i k bufLen pos =>
    obtain ⟨b, hb, hcursor, hbal⟩ := h
    exact ⟨b, hb, hcursor, hmono hbal⟩
  case entries i k bufLen hdr pos remaining =>
    obtain ⟨b, blk, done, todo, hb, hblk, hcursor, hdone, hpos, hrem, hbal⟩ := h
    exact ⟨b, blk, done, todo, hb, hblk, hcursor, hdone, hpos, hrem, hmono hbal⟩
  all_goals exact hmono h

section Cursor

variable {b : SinkBuffer} {k : ℕ} {bufLen : ℤ} {pos : ℕ} {log : List Block}

/-- From the cursor on stand the blocks that are left. -/
lemma Cursor.drop_data (h : Cursor b k bufLen pos) (hb : b.Stored log) :
    b.data.drop pos = (b.blocks.drop k).flatMap Block.encode := by
  rw [hb.data_eq]
  conv_lhs => rw [← List.take_append_drop k b.blocks, List.flatMap_append, h.pos_eq]
  exact List.drop_left

lemma Cursor.pos_le (h : Cursor b k bufLen pos) (hb : b.Stored log) : pos ≤ b.length := by
  rw [SinkBuffer.length, hb.data_eq]
  conv_rhs => rw [← List.take_append_drop k b.blocks, List.flatMap_append, List.length_append]
  rw [h.pos_eq]
  exact Nat.le_add_right _ _

/-- Bytes are left exactly when a block is left. -/
lemma Cursor.bufLen_pos_iff (h : Cursor b k bufLen pos) (hb : b.Stored log)
    (hsane : ∀ blk ∈ log, blk.Sane) : 0 < bufLen ↔ ∃ blk, b.blocks[k]? = some blk := by
  have hlen := congrArg List.length (h.drop_data hb)
  rw [List.length_drop] at hlen
  have hbufLen := h.bufLen_eq
  rw [SinkBuffer.length] at hbufLen
  rcases h.le.lt_or_eq with hlt | heq
  · have hblk : b.blocks[k] ∈ log := hb.logged (List.getElem_mem hlt)
    rw [List.drop_eq_getElem_cons hlt, List.flatMap_cons, List.length_append,
      (hsane _ hblk).length_encode] at hlen
    have : 0 < sizeofThreadCheckPoint := by decide
    refine ⟨fun _ => ⟨b.blocks[k], List.getElem?_eq_getElem hlt⟩, fun _ => by omega⟩
  · rw [heq, List.drop_length] at hlen
    simp only [List.flatMap_nil, List.length_nil] at hlen
    refine ⟨fun hpos => by omega, ?_⟩
    rintro ⟨blk, hblk⟩
    rw [heq, List.getElem?_length] at hblk
    cases hblk

/-- At the end of the outer loop the buffer is used up. -/
lemma Cursor.finished (h : Cursor b k bufLen pos) (hb : b.Stored log)
    (hsane : ∀ blk ∈ log, blk.Sane) (hle : bufLen ≤ 0) :
    pos = b.length ∧ b.blocks.drop k = [] := by
  have hpos := h.pos_le hb
  have hbufLen := h.bufLen_eq
  refine ⟨by omega, ?_⟩
  rw [List.drop_eq_nil_iff]
  by_contra hlt
  have := (h.bufLen_pos_iff hb hsane).mpr ⟨_, List.getElem?_eq_getElem (not_le.mp hlt)⟩
  omega

/-- The block at the cursor, with what stands behind it. -/
lemma Cursor.block_at (h : Cursor b k bufLen pos) (hb : b.Stored log) {blk : Block}
    (hblk : b.blocks[k]? = some blk) :
    b.data.drop pos = blk.encode ++ (b.blocks.drop (k + 1)).flatMap Block.encode ∧
      b.blocks.drop k = blk :: b.blocks.drop (k + 1) := by
  obtain ⟨hlt, rfl⟩ := List.getElem?_eq_some_iff.mp hblk
  rw [h.drop_data hb, List.drop_eq_getElem_cons hlt]
  exact ⟨rfl, rfl⟩

/-- The cursor behind the next block. -/
lemma Cursor.next (h : Cursor b k bufLen pos) {blk : Block} (hblk : b.blocks[k]? = some blk)
    (hsane : blk.Sane) :
    Cursor b (k + 1) (bufLen - (blk.bytes.length + sizeofThreadCheckPoint))
      (pos + sizeofThreadCheckPoint + blk.bytes.length) := by
  obtain ⟨hlt, hget⟩ := List.getElem?_eq_some_iff.mp hblk
  refine ⟨hlt, ?_, ?_⟩
  · rw [List.take_succ_eq_append_getElem hlt, hget, List.flatMap_append, List.length_append,
      ← h.pos_eq]
    simp only [List.flatMap_cons, List.flatMap_nil, List.append_nil, hsane.length_encode]
    omega
  · rw [h.bufLen_eq]
    push_cast
    ring

end Cursor

/-! ### The steps of the two loops -/

section Loops

variable {i k hdr pos : ℕ} {bufLen remaining : ℤ} {b : SinkBuffer} {blk : Block}
  {done todo : List (List UInt8)}

/-- The header of the next block is read. -/
lemma parseHeader_eq (hstore : s.StoreInv) (hb : s.buffersToWrite[i]? = some b)
    (hcursor : Cursor b k bufLen pos) (hblk : b.blocks[k]? = some blk) :
    s.parseHeader i k bufLen pos b = { s with
      pc := .entries i k bufLen pos (pos + sizeofThreadCheckPoint) blk.bytes.length } := by
  have hstored := hstore.batch b (List.mem_of_getElem? hb)
  have hsane := hstore.sane blk (hstored.logged (List.mem_of_getElem? hblk))
  obtain ⟨hdrop, -⟩ := hcursor.block_at hstored hblk
  obtain ⟨-, hsize, -, -⟩ := read_threadCheckPoint hsane hdrop (hcursor.pos_le hstored)
  simp only [parseHeader, hsize, hsane.wrapS_blockSize]

/-- An entry is read and formatted. -/
lemma parseEntry_eq (hstore : s.StoreInv) (hwhole : ∀ blk ∈ s.appended, blk.WholeEntries)
    (hb : s.buffersToWrite[i]? = some b) (hblk : b.blocks[k]? = some blk)
    (hcursor : Cursor b k bufLen hdr) (hentries : blk.entries = done ++ todo)
    (hpos : pos = hdr + sizeofThreadCheckPoint + done.flatten.length)
    (hremaining : remaining = todo.flatten.length) (hrem : 0 < remaining) :
    ∃ e todo', todo = e :: todo' ∧ e ≠ [] ∧ s.parseEntry i k bufLen hdr pos remaining b =
      { s with
        pc := .entries i k bufLen hdr (pos + e.length) todo'.flatten.length
        formatted := s.formatted ++ [blk.line e] } := by
  have hstored := hstore.batch b (List.mem_of_getElem? hb)
  have hlog := hstored.logged (List.mem_of_getElem? hblk)
  have hsane := hstore.sane blk hlog
  obtain ⟨hdrop, -⟩ := hcursor.block_at hstored hblk
  obtain ⟨hname, -, hbytes, hle⟩ := read_threadCheckPoint hsane hdrop (hcursor.pos_le hstored)
  obtain ⟨hlogEntry, hflatten⟩ := (hwhole blk hlog).entries_spec
  -- the entry at the cursor
  obtain ⟨e, todo, rfl⟩ : ∃ e todo', todo = e :: todo' := by
    cases todo with
    | nil => simp at hremaining; omega
    | cons e todo' => exact ⟨e, todo', rfl⟩
  have he := hlogEntry e (by rw [hentries]; simp)
  rw [hentries, List.flatten_append, List.flatten_cons] at hflatten
  have hat : b.data.drop pos =
      e ++ (todo.flatten ++ (b.blocks.drop (k + 1)).flatMap Block.encode) := by
    rw [hpos, ← List.drop_drop, hbytes, ← hflatten, List.append_assoc, List.drop_left,
      List.append_assoc]
  have hposle : pos ≤ b.length := by
    have hlen := congrArg List.length hbytes
    rw [List.length_drop, List.length_append, ← hflatten, List.length_append] at hlen
    rw [SinkBuffer.length] at hle ⊢
    omega
  have hread := b.read_of_drop pos hat hposle
  have hheader : b.read pos sizeofOneLogEntry = some (e.take sizeofOneLogEntry) := by
    rw [← List.take_append_drop sizeofOneLogEntry e, List.append_assoc] at hat
    have := b.read_of_drop pos hat hposle
    rwa [List.length_take, min_eq_left he.sizeof_le] at this
  have hsize : leValue (((e.take sizeofOneLogEntry).drop 8).take 4) = e.length := by
    rw [List.drop_take, List.take_take, ← he.entrySize_eq]
    rfl
  -- what remains of the block
  have hblkLen := hsane.length_le
  rw [← hflatten, List.length_append, List.length_append] at hblkLen
  have hlarge := stagingBufferSize_le_largeBuffer
  have hrest : remaining - wrapS 32 e.length = todo.flatten.length := by
    rw [wrapS_of_le (by omega) (by omega), hremaining, List.flatten_cons, List.length_append]
    push_cast
    ring
  have hwrap : wrapS 32 (todo.flatten.length : ℤ) = todo.flatten.length :=
    wrapS_of_le (by omega) (by omega)
  refine ⟨e, todo, rfl, he.isRecord.ne_nil, ?_⟩
  simp only [parseEntry, hname, hheader, hsize, hread, hrest, hwrap, if_true, hblk,
    hsane.takeWhile_name, Option.map_some, Block.line]

/-- The block is used up, and the outer loop goes on behind it. -/
lemma parseNext_eq (pos : ℕ) (hstore : s.StoreInv) (hwhole : ∀ blk ∈ s.appended, blk.WholeEntries)
    (hb : s.buffersToWrite[i]? = some b) (hblk : b.blocks[k]? = some blk)
    (hcursor : Cursor b k bufLen hdr) (hentries : blk.entries = done ++ todo)
    (hremaining : remaining = todo.flatten.length) (hrem : ¬0 < remaining) :
    todo = [] ∧ done.flatten.length = blk.bytes.length ∧
      s.parseNext i k bufLen hdr pos b = { s with
        pc := .parse i (k + 1) (bufLen - (blk.bytes.length + sizeofThreadCheckPoint)) pos } := by
  have hstored := hstore.batch b (List.mem_of_getElem? hb)
  have hlog := hstored.logged (List.mem_of_getElem? hblk)
  have hsane := hstore.sane blk hlog
  obtain ⟨hdrop, -⟩ := hcursor.block_at hstored hblk
  obtain ⟨-, hsize, -, -⟩ := read_threadCheckPoint hsane hdrop (hcursor.pos_le hstored)
  obtain ⟨hlogEntry, hflatten⟩ := (hwhole blk hlog).entries_spec
  obtain rfl : todo = [] := by
    cases todo with
    | nil => rfl
    | cons e todo' =>
        have he := (hlogEntry e (by rw [hentries]; simp)).isRecord.ne_nil
        have hpos := List.length_pos_iff.mpr he
        rw [List.flatten_cons, List.length_append] at hremaining
        omega
  have hnext := hcursor.next hblk hsane
  have hnextLe := hnext.pos_le hstored
  have hbound := hnext.bufLen_eq
  have hlarge := hstored.length_le
  refine ⟨rfl, by rw [← hflatten, hentries, List.append_nil], ?_⟩
  simp only [parseNext, hsize, hsane.wrapS_blockSize]
  rw [wrapS_of_le (by omega) (by omega)]

/-- One step in the parse loops. -/
lemma parseInv_parse (hstore : s.StoreInv) (hwhole : ∀ blk ∈ s.appended, blk.WholeEntries)
    (h : s.ParseInv (.parse i k bufLen pos)) (hb : s.buffersToWrite[i]? = some b)
    (hpos : 0 < bufLen) :
    (s.parseHeader i k bufLen pos b).ParseInv (s.parseHeader i k bufLen pos b).pc := by
  obtain ⟨b', hb', hcursor, hbal⟩ := h
  obtain rfl : b' = b := by rw [hb] at hb'; exact (Option.some.inj hb').symm
  have hstored := hstore.batch b' (List.mem_of_getElem? hb)
  obtain ⟨blk, hblk⟩ := (hcursor.bufLen_pos_iff hstored hstore.sane).mp hpos
  have hflatten := (hwhole blk (hstored.logged (List.mem_of_getElem? hblk))).entries_spec.2
  rw [parseHeader_eq hstore hb hcursor hblk]
  refine ⟨b', blk, [], blk.entries, hb, hblk, hcursor, rfl, rfl, by rw [hflatten], ?_⟩
  simpa [Balanced, (hcursor.block_at hstored hblk).2, Block.lines, queuedBlocks, batchFrom]
    using hbal

lemma parseInv_entries (hstore : s.StoreInv) (hwhole : ∀ blk ∈ s.appended, blk.WholeEntries)
    (h : s.ParseInv (.entries i k bufLen hdr pos remaining))
    (hb : s.buffersToWrite[i]? = some b) :
    (0 < remaining → (s.parseEntry i k bufLen hdr pos remaining b).ParseInv
        (s.parseEntry i k bufLen hdr pos remaining b).pc) ∧
      (¬0 < remaining → (s.parseNext i k bufLen hdr pos b).ParseInv
        (s.parseNext i k bufLen hdr pos b).pc) := by
  obtain ⟨b', blk, done, todo, hb', hblk, hcursor, hentries, hpos, hremaining, hbal⟩ := h
  obtain rfl : b' = b := by rw [hb] at hb'; exact (Option.some.inj hb').symm
  refine ⟨fun hrem => ?_, fun hrem => ?_⟩
  · obtain ⟨e, todo, rfl, -, heq⟩ :=
      parseEntry_eq hstore hwhole hb hblk hcursor hentries hpos hremaining hrem
    rw [heq]
    refine ⟨b', blk, done ++ [e], todo, hb, hblk, hcursor, by rw [hentries]; simp, ?_, rfl, ?_⟩
    · rw [hpos]
      simp
      ring
    · simpa [Balanced, Block.line, queuedBlocks, batchFrom] using hbal
  · obtain ⟨rfl, hdone, heq⟩ :=
      parseNext_eq pos hstore hwhole hb hblk hcursor hentries hremaining hrem
    have hstored := hstore.batch b' (List.mem_of_getElem? hb)
    have hsane := hstore.sane blk (hstored.logged (List.mem_of_getElem? hblk))
    rw [heq]
    refine ⟨b', hb, ?_, hbal⟩
    rw [hpos, hdone]
    exact hcursor.next hblk hsane

end Loops

/-- The queue becomes the batch, and what was appended stays accounted for. -/
lemma parseInv_swapSection (hpool : s.PoolInv) (hstore : s.StoreInv)
    (hspares : s.sparesGiven = 0) (hbatch : s.buffersToWrite = []) (h : s.Balanced [] [])
    (timeout : Bool) : (s.swapSection timeout).ParseInv (s.swapSection timeout).pc := by
  obtain ⟨cur, hcur⟩ := hpool.current
  obtain ⟨⟨b1, hb1⟩, b2, hb2⟩ := spares_of_sparesGiven hspares
  have hfresh := hstore.fresh b1 (.inr (.inl hb1))
  rw [swapSection_eq hcur hb1 hb2 hbatch]
  cases hworth : worthSwapping cur timeout
  · by_cases hempty : s.buffers = []
    · simpa [ParseInv, Balanced, queuedBlocks, hcur, hempty] using h
    · simpa [ParseInv, Balanced, queuedBlocks, batchFrom, hcur, hempty] using h
  · simpa [ParseInv, Balanced, queuedBlocks, batchFrom, hcur, hfresh] using h

/-- A step of the sink thread keeps what the parse loops rely on. -/
lemma threadStep_parseInv (hpool : s.PoolInv) (hstore : s.StoreInv)
    (hwhole : ∀ blk ∈ s.appended, blk.WholeEntries) (h : s.ParseInv s.pc) {a : SinkThreadAct}
    (ht : s.threadStep a = some t) : t.ParseInv t.pc := by
  have hth := hpool.thread
  cases threadStep_cases ht with
  | swap hpc =>
      have hidle : s.sparesGiven = 0 ∧ s.buffersToWrite = [] := by
        rcases hpc with hpc | hpc <;> rw [hpc] at hth <;> exact hth
      refine parseInv_swapSection hpool hstore hidle.1 hidle.2 ?_ _
      rcases hpc with hpc | hpc <;> rw [hpc] at h <;> exact h
  | loopHead hpc =>
      rw [hpc] at h
      dsimp only
      split_ifs <;> exact h
  | @buffer i hpc =>
      rw [hpc] at h
      cases hb : s.buffersToWrite[i]? with
      | none =>
          have hdrop : s.buffersToWrite.drop i = [] := by
            rw [List.drop_eq_nil_iff]
            exact List.getElem?_eq_none_iff.mp hb
          have hbal : s.Balanced [] (s.batchFrom i) := h
          rw [batchFrom, hdrop] at hbal
          exact hbal
      | some b =>
          have hdrop : s.batchFrom i = b.blocks ++ s.batchFrom (i + 1) := by
            obtain ⟨hlt, rfl⟩ := List.getElem?_eq_some_iff.mp hb
            rw [batchFrom, List.drop_eq_getElem_cons hlt, List.flatMap_cons, batchFrom]
          refine ⟨b, hb, ⟨Nat.zero_le _, by simp, by simp⟩, ?_⟩
          rw [List.drop_zero]
          have hbal : s.Balanced [] (s.batchFrom i) := h
          rw [hdrop] at hbal
          exact hbal
  | parseHeader hpc hb hpos =>
      rw [hpc] at h
      exact parseInv_parse hstore hwhole h hb hpos
  | endBuffer hpc hb hpos =>
      rw [hpc] at h
      obtain ⟨b', hb', hcursor, hbal⟩ := h
      obtain ⟨-, hdrop⟩ := hcursor.finished (hstore.batch b' (List.mem_of_getElem? hb'))
        hstore.sane (not_lt.mp hpos)
      rw [hdrop] at hbal
      exact hbal
  | parseEntry hpc hb hrem =>
      rw [hpc] at h
      exact (parseInv_entries hstore hwhole h hb).1 hrem
  | parseNext hpc hb hrem =>
      rw [hpc] at h
      exact (parseInv_entries hstore hwhole h hb).2 hrem
  | refillFails hpc => rcases hpc with ⟨hpc, -⟩ | ⟨hpc, -⟩ <;> rw [hpc] at h <;> exact h
  | start hpc => rw [hpc] at h; exact h
  | notRunning hpc => rw [hpc] at h; exact h
  | wait hpc => rw [hpc] at h; exact h
  | resize hpc => rw [hpc] at h; exact h
  | resetCount hpc => rw [hpc] at h; exact h
  | refill1 hpc => rw [hpc] at h; exact h
  | refill2 hpc => rw [hpc] at h; exact h
  | clear hpc => rw [hpc] at h; exact h

lemma parseInv_new : new.ParseInv new.pc := rfl

/-- The log only grows. -/
lemma step_appended (hpool : s.PoolInv) (hstore : s.StoreInv) {a : SinkAct}
    (ht : s.step a = some t) : ∃ new, t.appended = s.appended ++ new := by
  cases a with
  | appender a =>
      obtain ⟨new, -, happended, -⟩ := appenderStep_queuedBlocks hpool hstore ht
      exact ⟨new, happended⟩
  | thread a => exact ⟨[], by rw [(threadStep_frame ht).2.1, List.append_nil]⟩
  | stop =>
      cases ht
      exact ⟨[], by simp⟩

/-- **As long as only whole entries are appended, the parse loops stand where they should**, in
every reachable state. -/
theorem reachable_parseInv (h : machine.Reachable s)
    (hwhole : ∀ blk ∈ s.appended, blk.WholeEntries) : s.ParseInv s.pc := by
  have hinv : (s.PoolInv ∧ s.StoreInv) ∧
      ((∀ blk ∈ s.appended, blk.WholeEntries) → s.ParseInv s.pc) :=
    Machine.Reachable.invariant (I := fun s => (s.PoolInv ∧ s.StoreInv) ∧
      ((∀ blk ∈ s.appended, blk.WholeEntries) → s.ParseInv s.pc)) h
      ⟨⟨poolInv_new, storeInv_new⟩, fun _ => parseInv_new⟩ fun {t u a} hinv hst => by
        obtain ⟨⟨hpool, hstore⟩, hparse⟩ := hinv
        refine ⟨⟨step_poolInv hpool hst, step_storeInv hpool hstore hst⟩, fun hwhole => ?_⟩
        obtain ⟨new, happended⟩ := step_appended hpool hstore hst
        rw [happended] at hwhole
        have hwhole' : ∀ blk ∈ t.appended, blk.WholeEntries :=
          fun blk hblk => hwhole blk (List.mem_append_left _ hblk)
        cases a with
        | appender a => exact appenderStep_parseInv hpool hstore (hparse hwhole') hst
        | thread a => exact threadStep_parseInv hpool hstore hwhole' (hparse hwhole') hst
        | stop =>
            cases hst
            have := hparse hwhole'
            cases hpc : t.pc <;> simp only [hpc] at this ⊢ <;> exact this
  exact hinv.2 hwhole

/-! ### The loops end -/

/-- The sink thread alone takes a step. -/
def sinkAlone : Sink → SinkAct → Prop := fun _ a => a = .thread .advance

/-- The sink thread has a batch in hand. -/
def inBatch : SinkPc → Bool
  | .buffer _ | .parse _ _ _ _ | .entries _ _ _ _ _ _ => true
  | .resize | .resetCount | .refill1 | .refill2 | .clear => true
  | _ => false

/-- The sink thread alone takes a step, with a batch in hand. -/
def batchAlone : Sink → SinkAct → Prop := fun s a => a = .thread .advance ∧ inBatch s.pc = true

lemma batchAlone_of_pc {pc : SinkPc} (hpc : s.pc = pc) (hbatch : inBatch pc = true) :
    batchAlone s (.thread .advance) := ⟨rfl, by rw [hpc, hbatch]⟩

/-- A round of the inner loop formats an entry, or leaves the loop with a shorter `bufLen`. -/
lemma entries_step (h : machine.Reachable s) (hwhole : ∀ blk ∈ s.appended, blk.WholeEntries)
    {i k hdr pos : ℕ} {bufLen remaining : ℤ}
    (hpc : s.pc = .entries i k bufLen hdr pos remaining) :
    ∃ t, machine.step s (.thread .advance) = some t ∧ t.appended = s.appended ∧
      ((∃ pos' remaining', t.pc = .entries i k bufLen hdr pos' remaining' ∧
          remaining'.toNat < remaining.toNat) ∨
        ∃ bufLen', t.pc = .parse i (k + 1) bufLen' pos ∧ bufLen' < bufLen) := by
  have hstore := (reachable_storeInv h).2
  have hinv := reachable_parseInv h hwhole
  rw [hpc] at hinv
  obtain ⟨b, blk, done, todo, hb, hblk, hcursor, hentries, hpos, hremaining, -⟩ := hinv
  by_cases hrem : 0 < remaining
  · obtain ⟨e, todo, rfl, hne, heq⟩ :=
      parseEntry_eq hstore hwhole hb hblk hcursor hentries hpos hremaining hrem
    refine ⟨s.parseEntry i k bufLen hdr pos remaining b,
      by simp [machine, step, hpc, hb, hrem], ?_,
      .inl ⟨pos + e.length, todo.flatten.length, ?_, ?_⟩⟩
    · rw [heq]
    · rw [heq]
    · have := List.length_pos_iff.mpr hne
      rw [hremaining, List.flatten_cons, List.length_append]
      omega
  · obtain ⟨-, -, heq⟩ := parseNext_eq pos hstore hwhole hb hblk hcursor hentries hremaining hrem
    refine ⟨s.parseNext i k bufLen hdr pos b, by simp [machine, step, hpc, hb, hrem], ?_,
      .inr ⟨bufLen - (blk.bytes.length + sizeofThreadCheckPoint), ?_, ?_⟩⟩
    · rw [heq]
    · rw [heq]
    · have : 0 < sizeofThreadCheckPoint := by decide
      omega

/-- The test of the outer loop leads into the inner one, or out of the buffer, at its end. -/
lemma parse_step (h : machine.Reachable s) (hwhole : ∀ blk ∈ s.appended, blk.WholeEntries)
    {i k pos : ℕ} {bufLen : ℤ} (hpc : s.pc = .parse i k bufLen pos) :
    ∃ b t, s.buffersToWrite[i]? = some b ∧ machine.step s (.thread .advance) = some t ∧
      t.appended = s.appended ∧
      (0 < bufLen ∧ (∃ remaining, t.pc = .entries i k bufLen pos (pos + sizeofThreadCheckPoint)
          remaining) ∨
        bufLen = 0 ∧ pos = b.length ∧ t.pc = .buffer (i + 1)) := by
  have hstore := (reachable_storeInv h).2
  have hinv := reachable_parseInv h hwhole
  rw [hpc] at hinv
  obtain ⟨b, hb, hcursor, -⟩ := hinv
  have hstored := hstore.batch b (List.mem_of_getElem? hb)
  by_cases hpos : 0 < bufLen
  · obtain ⟨blk, hblk⟩ := (hcursor.bufLen_pos_iff hstored hstore.sane).mp hpos
    have heq := parseHeader_eq hstore hb hcursor hblk
    refine ⟨b, s.parseHeader i k bufLen pos b, hb, by simp [machine, step, hpc, hb, hpos], ?_,
      .inl ⟨hpos, blk.bytes.length, ?_⟩⟩
    · rw [heq]
    · rw [heq]
  · obtain ⟨hend, -⟩ := hcursor.finished hstored hstore.sane (not_lt.mp hpos)
    have hbufLen := hcursor.bufLen_eq
    exact ⟨b, { s with pc := .buffer (i + 1) }, hb, by simp [machine, step, hpc, hb, hpos], rfl,
      .inr ⟨by omega, hend, rfl⟩⟩

/-- The inner loop ends. -/
lemma entries_terminates (n : ℕ) : ∀ {s : Sink} {i k hdr pos : ℕ} {bufLen remaining : ℤ},
    machine.Reachable s → (∀ blk ∈ s.appended, blk.WholeEntries) →
    s.pc = .entries i k bufLen hdr pos remaining → remaining.toNat ≤ n →
    ∃ t k' bufLen' pos', machine.Reaches batchAlone s t ∧ t.appended = s.appended ∧
      t.pc = .parse i k' bufLen' pos' ∧ bufLen' < bufLen := by
  induction n with
  | zero =>
      intro s i k hdr pos bufLen remaining hreach hwhole hpc hn
      obtain ⟨t, hst, happended, ⟨_, _, _, hlt⟩ | ⟨bufLen', hpc', hlt⟩⟩ :=
        entries_step hreach hwhole hpc
      · omega
      · exact ⟨t, _, _, _, .single (batchAlone_of_pc hpc rfl) hst, happended, hpc', hlt⟩
  | succ n ih =>
      intro s i k hdr pos bufLen remaining hreach hwhole hpc hn
      obtain ⟨t, hst, happended, ⟨_, _, hpc', hlt⟩ | ⟨bufLen', hpc', hlt⟩⟩ :=
        entries_step hreach hwhole hpc
      · obtain ⟨u, k', bufLen', pos', hreach', happended', hu, hlt'⟩ :=
          ih (hreach.step hst) (by rwa [happended]) hpc' (by omega)
        have hfirst := Machine.Reaches.single (batchAlone_of_pc hpc rfl) hst
        exact ⟨u, k', bufLen', pos', hfirst.trans hreach', happended'.trans happended, hu, hlt'⟩
      · exact ⟨t, _, _, _, .single (batchAlone_of_pc hpc rfl) hst, happended, hpc', hlt⟩

/-- The outer loop ends. -/
lemma parse_terminates_aux (n : ℕ) : ∀ {s : Sink} {i k pos : ℕ} {bufLen : ℤ},
    machine.Reachable s → (∀ blk ∈ s.appended, blk.WholeEntries) →
    s.pc = .parse i k bufLen pos → bufLen.toNat ≤ n →
    ∃ t, machine.Reaches batchAlone s t ∧ t.pc = .buffer (i + 1) := by
  induction n with
  | zero =>
      intro s i k pos bufLen hreach hwhole hpc hn
      obtain ⟨b, t, -, hst, -, ⟨hpos, -⟩ | ⟨-, -, hpc'⟩⟩ := parse_step hreach hwhole hpc
      · omega
      · exact ⟨t, .single (batchAlone_of_pc hpc rfl) hst, hpc'⟩
  | succ n ih =>
      intro s i k pos bufLen hreach hwhole hpc hn
      obtain ⟨b, t, -, hst, happended, ⟨hpos, remaining, hpc'⟩ | ⟨-, -, hpc'⟩⟩ :=
        parse_step hreach hwhole hpc
      · have hreach₁ := hreach.step hst
        obtain ⟨u, k', bufLen', pos', hreach', happended', hu, hlt⟩ :=
          entries_terminates _ hreach₁ (by rwa [happended]) hpc' le_rfl
        have hreach₂ : machine.Reachable u :=
          hreach₁.reaches (hreach'.mono fun _ _ _ => trivial)
        obtain ⟨v, hreach'', hv⟩ :=
          ih hreach₂ (by rwa [happended', happended]) hu (by omega)
        have hfirst := Machine.Reaches.single (batchAlone_of_pc hpc rfl) hst
        exact ⟨v, (hfirst.trans hreach').trans hreach'', hv⟩
      · exact ⟨t, .single (batchAlone_of_pc hpc rfl) hst, hpc'⟩

/-- From every point of the parse loops the sink thread leaves the buffer. -/
lemma parse_terminates_batch (h : machine.Reachable s)
    (hwhole : ∀ blk ∈ s.appended, blk.WholeEntries) {i : ℕ}
    (hpc : (∃ k bufLen pos, s.pc = .parse i k bufLen pos) ∨
      ∃ k bufLen hdr pos remaining, s.pc = .entries i k bufLen hdr pos remaining) :
    ∃ t, machine.Reaches batchAlone s t ∧ t.pc = .buffer (i + 1) := by
  rcases hpc with ⟨k, bufLen, pos, hpc⟩ | ⟨k, bufLen, hdr, pos, remaining, hpc⟩
  · exact parse_terminates_aux _ h hwhole hpc le_rfl
  · obtain ⟨t, k', bufLen', pos', hreach, happended, ht, -⟩ :=
      entries_terminates _ h hwhole hpc le_rfl
    obtain ⟨u, hreach', hu⟩ := parse_terminates_aux _
      (h.reaches (hreach.mono fun _ _ _ => trivial)) (by rwa [happended]) ht le_rfl
    exact ⟨u, hreach.trans hreach', hu⟩

/-- **The parse loops end**: from every point of them the sink thread leaves the buffer. -/
theorem parse_terminates (h : machine.Reachable s)
    (hwhole : ∀ blk ∈ s.appended, blk.WholeEntries) {i : ℕ}
    (hpc : (∃ k bufLen pos, s.pc = .parse i k bufLen pos) ∨
      ∃ k bufLen hdr pos remaining, s.pc = .entries i k bufLen hdr pos remaining) :
    ∃ t, machine.Reaches sinkAlone s t ∧ t.pc = .buffer (i + 1) := by
  obtain ⟨t, hreach, ht⟩ := parse_terminates_batch h hwhole hpc
  exact ⟨t, hreach.mono fun _ _ hG => hG.1, ht⟩

end Sink

end ConstexprFmtStr
