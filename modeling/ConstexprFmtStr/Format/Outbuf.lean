import Mathlib.Tactic
import ConstexprFmtStr.Lib.Slice

/-!
`OutbufArg` (`constexpr_fmt.h`): the buffer a format is printed to.

* `OutbufArg`: its pointers and its count, with the memory they point into. The buffer is a
  range of the memory like any other, so that what is printed can be read back.
* `write`, `writeChar`, `writePaddings`: the three ways to print, each with its own check of the
  space left. `writeChar_eq` and `writePaddings_eq` say that they are one, and `write_append`
  that what is printed in parts is printed as a whole.
* `write_frame`: nothing but the free part of the buffer, `Free`, changes.
-/

namespace ConstexprFmtStr

open Slice

/-- The memory, byte by byte. -/
abbrev Mem := ℕ → UInt8

/-- `PADSIZE`. -/
def padSize : ℕ := 16

/-- An `OutbufArg` and the memory. -/
structure OutbufArg where
  pBufBegin : ℕ
  pBuf : ℕ
  pBufEnd : ℕ
  written : UInt64
  mem : Mem

/-- Characters as the bytes of a C string. -/
def charBytes (cs : List Char) : List UInt8 := cs.map Char.toUInt8

@[simp] lemma charBytes_append (cs ds : List Char) :
    charBytes (cs ++ ds) = charBytes cs ++ charBytes ds := List.map_append

lemma charBytes_replicate (n : ℕ) (c : Char) :
    charBytes (List.replicate n c) = List.replicate n c.toUInt8 := List.map_replicate

@[simp] lemma length_charBytes (cs : List Char) : (charBytes cs).length = cs.length :=
  List.length_map _

namespace OutbufArg

/-- `remaining`, as the signed value it is compared as: the last byte is kept for the '\0'. -/
def remaining (out : OutbufArg) : ℤ := (out.pBufEnd : ℤ) - out.pBuf - 1

/-- `memcpy(pBuf_, bs, n); pBuf_ += n;` -/
def copy (out : OutbufArg) (bs : List UInt8) : OutbufArg :=
  { out with
    pBuf := out.pBuf + bs.length
    mem := writeAt out.mem out.pBuf bs }

/-- `written_ += n;` -/
def addWritten (out : OutbufArg) (n : ℕ) : OutbufArg :=
  { out with written := out.written + UInt64.ofNat n }

/-- `write(ch)`. -/
def writeChar (out : OutbufArg) (ch : UInt8) : OutbufArg :=
  let out := out.addWritten 1
  if out.remaining ≤ 0 then out else out.copy [ch]

/-- `write(p, n)`, of the bytes at `p`. -/
def write (out : OutbufArg) (bs : List UInt8) : OutbufArg :=
  let out := out.addWritten bs.length
  if out.remaining ≤ 0 then out
  else if out.remaining < bs.length then out.copy (bs.take out.remaining.toNat)
  else out.copy bs

/-- The loop of `writePaddings`, `PADSIZE` bytes at a time. -/
def padLoop (padding : UInt8) : ℕ → ℕ → OutbufArg → OutbufArg
  | 0, n, out => out.copy (List.replicate n padding)
  | fuel + 1, n, out =>
      if padSize < n then
        padLoop padding fuel (n - padSize) (out.copy (List.replicate padSize padding))
      else out.copy (List.replicate n padding)

/-- `writePaddings<padding>(n)`. -/
def writePaddings (out : OutbufArg) (padding : UInt8) (n : ℤ) : OutbufArg :=
  if n ≤ 0 then out
  else
    let out := out.addWritten n.toNat
    if out.remaining ≤ 0 then out
    else
      let n := if out.remaining < n then out.remaining else n
      padLoop padding n.toNat n.toNat out

/-- `done()`. -/
def done (out : OutbufArg) : OutbufArg := { out with mem := writeAt out.mem out.pBuf [0] }

/-- `OutbufArg(buffer, size)`, over the memory `mem`. -/
def new (mem : Mem) (buffer size : ℕ) : OutbufArg where
  pBufBegin := buffer
  pBuf := buffer
  pBufEnd := buffer + size
  written := 0
  mem := mem

/-- The free bytes of the buffer but for the last. -/
def room (out : OutbufArg) : ℕ := out.pBufEnd - out.pBuf - 1

lemma toNat_remaining (out : OutbufArg) : out.remaining.toNat = out.room := by
  simp only [room, remaining]
  omega

@[simp] lemma room_addWritten (out : OutbufArg) (n : ℕ) :
    (out.addWritten n).room = out.room := rfl

@[simp] lemma room_copy (out : OutbufArg) (bs : List UInt8) :
    (out.copy bs).room = out.room - bs.length := by
  simp only [room, copy]
  omega

@[simp] lemma addWritten_zero (out : OutbufArg) : out.addWritten 0 = out := by
  simp [addWritten]

lemma addWritten_add (out : OutbufArg) (m n : ℕ) :
    (out.addWritten m).addWritten n = out.addWritten (m + n) := by
  simp only [addWritten, UInt64.ofNat_add, UInt64.add_assoc]

lemma addWritten_copy (out : OutbufArg) (bs : List UInt8) (n : ℕ) :
    (out.copy bs).addWritten n = (out.addWritten n).copy bs := rfl

/-! ### One way to print -/

@[simp] lemma copy_nil (out : OutbufArg) : out.copy [] = out := by
  simp [copy]

lemma copy_append (out : OutbufArg) (bs cs : List UInt8) :
    (out.copy bs).copy cs = out.copy (bs ++ cs) := by
  simp only [copy, List.length_append, Nat.add_assoc, writeAt_append]

/-- What `write` does, whatever the space left. -/
lemma write_eq (out : OutbufArg) (bs : List UInt8) :
    out.write bs = (out.addWritten bs.length).copy (bs.take out.room) := by
  have hroom := toNat_remaining (out.addWritten bs.length)
  rw [room_addWritten] at hroom
  rw [write]
  by_cases h0 : (out.addWritten bs.length).remaining ≤ 0
  · rw [if_pos h0, show out.room = 0 by omega, List.take_zero, copy_nil]
  · rw [if_neg h0]
    by_cases hlt : (out.addWritten bs.length).remaining < bs.length
    · rw [if_pos hlt, hroom]
    · rw [if_neg hlt, List.take_of_length_le (by omega)]

@[simp] lemma write_nil (out : OutbufArg) : out.write [] = out := by
  rw [write_eq, List.take_nil, copy_nil, List.length_nil, addWritten_zero]

/-- Printing in two parts. -/
lemma write_append (out : OutbufArg) (bs cs : List UInt8) :
    (out.write bs).write cs = out.write (bs ++ cs) := by
  rw [write_eq, write_eq, write_eq, room_copy, room_addWritten, addWritten_copy, addWritten_add,
    copy_append, List.length_append, List.take_append, List.length_take]
  congr 3
  omega

lemma writeChar_eq (out : OutbufArg) (ch : UInt8) : out.writeChar ch = out.write [ch] := by
  have hroom := toNat_remaining (out.addWritten 1)
  rw [room_addWritten] at hroom
  rw [write_eq, List.length_singleton, writeChar]
  by_cases h0 : (out.addWritten 1).remaining ≤ 0
  · rw [if_pos h0, show out.room = 0 by omega, List.take_zero, copy_nil]
  · rw [if_neg h0, List.take_of_length_le (by rw [List.length_singleton]; omega)]

lemma padLoop_eq (padding : UInt8) (fuel n : ℕ) (out : OutbufArg) :
    padLoop padding fuel n out = out.copy (List.replicate n padding) := by
  induction fuel generalizing n out with
  | zero => rfl
  | succ fuel ih =>
      rw [padLoop]
      split_ifs with h
      · rw [ih, copy_append, List.replicate_append_replicate, Nat.add_sub_cancel' h.le]
      · rfl

lemma writePaddings_eq (out : OutbufArg) (padding : UInt8) (n : ℤ) :
    out.writePaddings padding n = out.write (List.replicate n.toNat padding) := by
  have hroom := toNat_remaining (out.addWritten n.toNat)
  rw [room_addWritten] at hroom
  rw [writePaddings]
  by_cases hn : n ≤ 0
  · rw [if_pos hn, Int.toNat_of_nonpos hn, List.replicate_zero, write_nil]
  rw [if_neg hn, write_eq, List.length_replicate, List.take_replicate]
  simp only [padLoop_eq]
  by_cases h0 : (out.addWritten n.toNat).remaining ≤ 0
  · rw [if_pos h0, show min out.room n.toNat = 0 by omega, List.replicate_zero, copy_nil]
  · rw [if_neg h0]
    congr 2
    split_ifs with hlt <;> omega

/-! ### What does not change -/

@[simp] lemma pBufBegin_write (out : OutbufArg) (bs : List UInt8) :
    (out.write bs).pBufBegin = out.pBufBegin := by
  rw [write_eq]
  rfl

@[simp] lemma pBufEnd_write (out : OutbufArg) (bs : List UInt8) :
    (out.write bs).pBufEnd = out.pBufEnd := by
  rw [write_eq]
  rfl

lemma pBuf_write (out : OutbufArg) (bs : List UInt8) :
    (out.write bs).pBuf = out.pBuf + min out.room bs.length := by
  rw [write_eq, copy, List.length_take]
  rfl

/-- Nothing but the free part of the buffer changes. -/
lemma write_frame (out : OutbufArg) (bs : List UInt8) {a : ℕ}
    (ha : a < out.pBuf ∨ out.pBufEnd ≤ a) : (out.write bs).mem a = out.mem a := by
  rw [write_eq]
  by_cases h0 : out.room = 0
  · rw [h0, List.take_zero, copy_nil]
    rfl
  · refine writeAt_of_disjoint (ha.imp_right fun ha => ?_)
    simp only [room, addWritten, List.length_take] at h0 ⊢
    omega

/-- The free part of the buffer, where printing may store. -/
def Free (out : OutbufArg) (i : ℕ) : Prop := out.pBuf ≤ i ∧ i < out.pBufEnd

lemma mem_write_of_not_free {out : OutbufArg} {i : ℕ} (h : ¬out.Free i) (bs : List UInt8) :
    (out.write bs).mem i = out.mem i := by
  refine write_frame out bs ?_
  rw [Free] at h
  omega

/-- The free part only gets smaller. -/
lemma free_of_free_write {out : OutbufArg} {bs : List UInt8} {i : ℕ}
    (h : (out.write bs).Free i) : out.Free i := by
  rw [Free, pBuf_write, pBufEnd_write] at h
  rw [Free]
  omega

/-- There are buffers of every size. -/
lemma exists_room (n : ℕ) : ∃ out : OutbufArg, out.room = n :=
  ⟨new (fun _ => 0) 0 (n + 1), by simp [room, new]⟩

/-- Different texts that fit print differently. -/
lemma write_injective {out : OutbufArg} {bs cs : List UInt8} (hbs : bs.length ≤ out.room)
    (hcs : cs.length ≤ out.room) (h : out.write bs = out.write cs) : bs = cs := by
  have hlen : bs.length = cs.length := by
    have hp := congrArg pBuf h
    rw [pBuf_write, pBuf_write] at hp
    omega
  have hmem : slice (out.write bs).mem out.pBuf bs.length =
      slice (out.write cs).mem out.pBuf cs.length := by rw [h, hlen]
  rw [write_eq, write_eq, List.take_of_length_le hbs, List.take_of_length_le hcs] at hmem
  exact (slice_writeAt_self _ _ bs).symm.trans (hmem.trans (slice_writeAt_self _ _ cs))

end OutbufArg

end ConstexprFmtStr
