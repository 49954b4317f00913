import Mathlib.Tactic
import ConstexprFmtStr.Log.Deferred
import ConstexprFmtStr.Runtime.Cache

/-!
The lines that the sink thread prints (`threadFunc` in `runtime_logger.cpp`).

* `formatEntry`: the body of the loop over the entries of a block. `formatEntries`,
  `formatBlocks`: this loop, and the one over the blocks of a buffer.
* `write_of_dealt`: `CFMT_STR_OUTBUFARG` prints one text, for every call without `%n`.
* `Workspace`: the memory that formatting overwrites. `Ready`: the state between two entries.
* `formatEntry_eq`: one entry, whatever was formatted before.
* `formatEntries_eq`, `formatBlocks_eq`: a block, and a whole buffer.
-/

namespace ConstexprFmtStr

open Slice Word Numeral Framing TimestampFormatter

/-! ### What an entry refers to -/

/-- `LogLevel`. -/
inductive LogLevel
  | silentLogLevel
  | err
  | warning
  | information
  | dbg
  | numLogLevels
  deriving DecidableEq

/-- `static_cast<size_t>(severity)`. -/
def LogLevel.toSize : LogLevel → ℕ
  | silentLogLevel => 0
  | err => 1
  | warning => 2
  | information => 3
  | dbg => 4
  | numLogLevels => 5

/-- The strings of `logLevelNames`. -/
def logLevelNames : List String := ["NAN", "ERR", "WRN", "INF", "DBG"]

/-- What the sink thread reads of a `StaticFmtInfo`, its strings given by their addresses. -/
structure StaticFmtInfo where
  convertFN : OutbufArg → ℕ → Option OutbufArg
  filename : ℕ
  funcname : ℕ
  lineNum : ℕ
  severity : LogLevel

/-- What the sink thread calls and refers to: the libraries, `tscns.tsc2ns`, the `StaticFmtInfo`
at an address, and the pointers in `logLevelNames`. -/
structure SinkEnv where
  lib : TimeLib
  clib : CLib
  tsc2ns : ℕ → ℕ
  fmtInfo : ℕ → Option StaticFmtInfo
  levelNames : List ℕ

/-- `reset()` of an `OutbufArg`. -/
def OutbufArg.reset (out : OutbufArg) : OutbufArg :=
  { out with pBuf := out.pBufBegin, written := 0 }

/-! ### The loops of `threadFunc` -/

/-- The format of the pattern of `timeFmt_`. -/
def sinkPattern : List UInt8 := charBytes "%Y-%m-%d %H:%M:%S,%Qus".toList

/-- The format of the front of a line. -/
def lineFormat : List Char := "%s %s %s %s->%s:%d] ".toList ++ [nul]

/-- The format of the line of an entry whose arguments are too large. -/
def illegalFormat : List Char :=
  "<ILLEGAL_ARGS_SIZE>".toList ++
    "\n\tThe total size of the arguments to be formatted by TZLog is [%u]".toList ++
    ", exceeding the maximum value allowed [%d], ".toList ++
    "please check the log input!!!\n".toList ++ [nul]

/-- `timeFmt_` and `fmtBuf`, and what `fwrite` would have been given for each entry. -/
structure SinkFormat where
  timeFmt : TimestampFormatter
  fmtBuf : OutbufArg
  lines : List (List UInt8)

/-- The rest of a line: what `convertFN_` prints, or that there were too many arguments. -/
def formatMessage (env : SinkEnv) (pSMI : StaticFmtInfo) (pos : ℕ) (fmtBuf : OutbufArg) :
    Option OutbufArg :=
  if fmtBuf.mem (pos + 12) = LogEntryStatus.normal.toByte then do
    let fmtBuf ← pSMI.convertFN fmtBuf (pos + sizeofOneLogEntry)
    cfmtStrOutbufArg env.clib ['\n', nul] [] fmtBuf
  else if fmtBuf.mem (pos + 12) = LogEntryStatus.illegalArgsSize.toByte then
    let argSize := leValue (slice fmtBuf.mem (pos + sizeofOneLogEntry) 8)
    cfmtStrOutbufArg env.clib illegalFormat
      [uintArg (wrapU 32 argSize), IntSpec.intArg formatArgsMaximumSize] fmtBuf
  else some fmtBuf

/-- The body of the loop over the entries of a block: the entry at `pos`, behind the
`ThreadCheckPoint` at `hdr`. `none` where it reads past `logLevelNames`. -/
def formatEntry (env : SinkEnv) (places : Places) (hdr pos : ℕ) (s : SinkFormat) :
    Option SinkFormat := do
  let fmtBuf := s.fmtBuf.reset
  let pSMI ← env.fmtInfo (leValue (slice fmtBuf.mem pos 8))
  let ns := env.tsc2ns (leValue (slice fmtBuf.mem (pos + 16) 8))
  let logLevel ← env.levelNames[pSMI.severity.toSize]?
  let (timeFmt, mem) ←
    formatTimestamp env.lib env.clib places fmtBuf.mem s.timeFmt (wrapS 64 ns)
  let fmtBuf ← cfmtStrOutbufArg env.clib lineFormat
    [strArg places.buffer, strArg logLevel, strArg hdr, strArg pSMI.filename,
      strArg pSMI.funcname, uintArg pSMI.lineNum] { fmtBuf with mem := mem }
  let fmtBuf ← formatMessage env pSMI pos fmtBuf
  let size := sinkSize fmtBuf.written
  return {
    timeFmt := timeFmt
    fmtBuf := fmtBuf
    lines := s.lines ++ [slice fmtBuf.mem fmtBuf.pBufBegin size] }

/-- `while (remaining > 0)`; `none` where an `int` overflows, or where `fuel` rounds are not enough.
`places n` is where the strings of `timeFmt_` stand at the entry `n`. -/
def formatEntries (env : SinkEnv) (places : ℕ → Places) (hdr : ℕ) :
    ℕ → ℕ → ℤ → SinkFormat → Option (ℕ × SinkFormat)
  | 0, pos, remaining, s => if remaining ≤ 0 then some (pos, s) else none
  | fuel + 1, pos, remaining, s =>
      if remaining ≤ 0 then some (pos, s)
      else do
        let s ← formatEntry env (places s.lines.length) hdr pos s
        let entrySize := leValue (slice s.fmtBuf.mem (pos + 8) 4)
        let remaining' := remaining - wrapS 32 entrySize
        if wrapS 32 remaining' = remaining' then
          formatEntries env places hdr fuel (pos + entrySize) remaining' s
        else none

/-- `while (bufLen > 0)`. -/
def formatBlocks (env : SinkEnv) (places : ℕ → Places) :
    ℕ → ℕ → ℤ → SinkFormat → Option SinkFormat
  | 0, _, bufLen, s => if bufLen ≤ 0 then some s else none
  | fuel + 1, pos, bufLen, s =>
      if bufLen ≤ 0 then some s
      else do
        let blockSize := wrapS 32 (leValue (slice s.fmtBuf.mem (pos + 20) 4))
        let (next, s) ← formatEntries env places pos blockSize.toNat
          (pos + sizeofThreadCheckPoint) blockSize s
        let blockSize := wrapS 32 (leValue (slice s.fmtBuf.mem (pos + 20) 4))
        formatBlocks env places fuel next
          (wrapS 32 (bufLen - (blockSize + sizeofThreadCheckPoint))) s

/-- The body of the loop over `buffersToWrite`, for a buffer of `length` bytes at `data`. -/
def formatBuffer (env : SinkEnv) (places : ℕ → Places) (data length : ℕ) (s : SinkFormat) :
    Option SinkFormat :=
  formatBlocks env places length data length s

/-! ### Texts -/

/-- `CFMT_STR_OUTBUFARG` prints one text, if the format has no `%n` and no string lies in the free
part of the buffer. -/
lemma write_of_dealt (lib : CLib) {format : List Char} {args : List Arg}
    {d : List Char × List (Taken Arg) × SpecInfo} (hd : dealt format args = some d)
    (hn : ∀ t ∈ d.2.1, t.SI.terminal ≠ 'n') {out : OutbufArg}
    (hfree : ∀ t ∈ d.2.1, ∀ i, t.StringAt out.mem i → ¬out.Free i) :
    cfmtStrOutbufArg lib format args out = some (out.write (dealtText lib out.mem d)) := by
  obtain ⟨kRTStr, ts, last⟩ := d
  have hprint := foldl_print lib kRTStr hn hfree
  rw [cfmtStrOutbufArg_eq, hd, Option.map_some, dealtText, ← OutbufArg.write_append, ← hprint]

/-- Only `s` reads a string. -/
lemma not_stringAt {t : Taken Arg} (h : t.SI.terminal ≠ 's') (mem : Mem) (i : ℕ) :
    ¬t.StringAt mem i := by
  have hlen : stringLength t.SI t.arg t.prec mem = 0 := by
    rw [stringLength]
    exact if_pos (.inl h)
  rw [Taken.StringAt, hlen]
  omega

/-- The text in front of a specifier comes first, and the rest does not depend on it. -/
lemma emitted_literal (lib : CLib) (fmt : List Char) (SI : SpecInfo) (arg : Arg) (W P : ℤ)
    (mem : Mem) :
    emitted lib fmt SI arg W P mem = literalText fmt SI ++
      emitted lib fmt { SI with begin_ := 0, end_ := 0 } arg W P mem := by
  have hnil : literalText fmt { SI with begin_ := 0, end_ := 0 } = [] := literalText_same fmt rfl
  simp only [emitted, hnil, List.nil_append]
  rfl

/-- `%s` with the text from `b` to `e` before it, and the address of a string. -/
def strTakenAt (b e a : ℕ) : Taken Arg :=
  ⟨{ begin_ := b, end_ := e, terminal := 's' }, [], strArg a⟩

section

variable {mem : Mem} {a : ℕ} {s : List UInt8}

lemma text_strTakenAt (h : StringIs mem a s) (lib : CLib) (fmt : List Char) (b e : ℕ) :
    (strTakenAt b e a).text lib fmt mem =
      literalText fmt (strTakenAt b e a).SI ++ strText s :=
  calc (strTakenAt b e a).text lib fmt mem
      = literalText fmt (strTakenAt b e a).SI ++
          emitted lib fmt (strSpec 0) (strArg a) 0 (-1) mem :=
        emitted_literal lib fmt (strTakenAt b e a).SI (strArg a) 0 (-1) mem
    _ = literalText fmt (strTakenAt b e a).SI ++ strText s := by rw [emitted_string h]; rfl

/-- What is read for a string is the string. -/
lemma StringIs.bounds_of_stringAt (h : StringIs mem a s) {b e i : ℕ}
    (hi : (strTakenAt b e a).StringAt mem i) : a ≤ i ∧ i ≤ a + s.length := by
  obtain ⟨hle, hlt⟩ := hi
  have haddr := address_strArg h.address_lt
  have hlen : stringLength (strTakenAt b e a).SI (strTakenAt b e a).arg
      (strTakenAt b e a).prec mem = min (2 ^ 64) (nulIndex mem (2 ^ 64) (strArg a).address + 1) :=
    rfl
  have hle' : (strArg a).address ≤ i := hle
  rw [hlen] at hlt
  have hlt' : i < (strArg a).address +
      min (2 ^ 64) (nulIndex mem (2 ^ 64) (strArg a).address + 1) := hlt
  rw [haddr, h.nulIndex_eq] at hlt'
  rw [haddr] at hle'
  omega

/-- A string stands where nothing has changed. -/
lemma StringIs.congr {mem' : Mem} (h : StringIs mem a s)
    (hsame : ∀ i, a ≤ i → i ≤ a + s.length → mem' i = mem i) : StringIs mem' a s where
  address_lt := h.address_lt
  nul_notMem := h.nul_notMem
  length_le := h.length_le
  slice_eq := by
    rw [← h.slice_eq, length_slice]
    exact slice_congr fun i hi hi' => hsame i hi hi'.le
  end_eq := by rw [hsame _ (Nat.le_add_right _ _) le_rfl, h.end_eq]

end

/-- What `%d` prints for a value. -/
def decimalText (v : ℤ) : List UInt8 :=
  charBytes ((if wrapS 32 v < 0 then ['-'] else []) ++
    shown (digitChar false) 10 (wrapS 32 v).natAbs)

/-- What `%u` prints. -/
def unsignedText (v : ℤ) : List UInt8 := charBytes (shown (digitChar false) 10 (wrapU 32 v))

/-- An integer conversion without flags, width and precision. -/
def plainInt (conv : Char) (h : isIntTerminal conv = true) : IntSpec := { conv := conv, isInt := h }

section

variable {arg : Arg} {t : IntType}

/-- The text of such a conversion. -/
lemma emitted_plainInt {conv : Char} (hconv : isIntTerminal conv = true) (harg : arg.type = .int t)
    (lib : CLib) (fmt : List Char) (b e : ℕ) (mem : Mem) :
    emitted lib fmt { begin_ := b, end_ := e, terminal := conv } arg 0 (-1) mem =
      literalText fmt { begin_ := b, end_ := e, terminal := conv } ++
        charBytes ((plainInt conv hconv).signText (Arg.intValue t arg.bytes) ++
          (plainInt conv hconv).digitsText (Arg.intValue t arg.bytes)) := by
  have hmatches : (plainInt conv hconv).Matches false
      { begin_ := b, end_ := e, terminal := conv } :=
    { zeropad_eq := rfl
      ladjust_eq := rfl
      sign_eq := rfl
      width_eq := rfl
      prec_eq := rfl
      terminal_eq := rfl
      alt_eq := rfl
      length_eq := rfl }
  have hbounded : (plainInt conv hconv).Bounded := by
    refine ⟨?_, ?_, fun n hn => absurd hn (by simp [IntSpec.precValue, plainInt])⟩
    · show -2 ^ 31 < (0 : ℤ)
      norm_num
    · show (0 : ℤ) < intMax
      norm_num [intMax]
  have hnumber (v : ℤ) :
      (plainInt conv hconv).codeNumber v = (plainInt conv hconv).digitsText v := by
    have hprec : (plainInt conv hconv).resolvedPrec = -1 := rfl
    have hzero : ((-1 : ℤ) - ((plainInt conv hconv).digitsText v).length).toNat = 0 := by omega
    rw [IntSpec.codeNumber, hprec, hzero]
    rfl
  have hpadded (sign number : List Char) :
      (plainInt conv hconv).padded sign number = sign ++ number := by
    have hwidth : (plainInt conv hconv).widthValue = 0 := rfl
    rw [IntSpec.padded, hwidth]
    simp [plainInt]
  have hemit := IntSpec.emitted_eq hmatches hbounded lib fmt harg mem
  rw [hnumber, hpadded] at hemit
  exact hemit

lemma emitted_decimal (harg : arg.type = .int t) (lib : CLib) (fmt : List Char) (b e : ℕ)
    (mem : Mem) :
    emitted lib fmt { begin_ := b, end_ := e, terminal := 'd' } arg 0 (-1) mem =
      literalText fmt { begin_ := b, end_ := e, terminal := 'd' } ++
        decimalText (Arg.intValue t arg.bytes) :=
  emitted_plainInt rfl harg lib fmt b e mem

lemma emitted_unsigned (harg : arg.type = .int t) (lib : CLib) (fmt : List Char) (b e : ℕ)
    (mem : Mem) :
    emitted lib fmt { begin_ := b, end_ := e, terminal := 'u' } arg 0 (-1) mem =
      literalText fmt { begin_ := b, end_ := e, terminal := 'u' } ++
        unsignedText (Arg.intValue t arg.bytes) := by
  have hsign (v : ℤ) : (plainInt 'u' rfl).signText v = [] := by
    have hreduced : (plainInt 'u' rfl).reduced v = wrapU 32 v := rfl
    rw [IntSpec.signText, hreduced, if_neg (by omega)]
    rfl
  rw [emitted_plainInt rfl harg, hsign]
  rfl

end

/-! ### The front of a line -/

/-- The strings of the front of a line: the time, the level, the thread, the file and the
function. -/
structure Front (α : Type*) where
  stamp : α
  level : α
  name : α
  filename : α
  funcname : α

/-- All of them. -/
def Front.all {α : Type*} (f : Front α) : List α :=
  [f.stamp, f.level, f.name, f.filename, f.funcname]

/-- The arguments of the front of a line. -/
def frontArgs (addrs : Front ℕ) (lineNum : ℕ) : List Arg :=
  [strArg addrs.stamp, strArg addrs.level, strArg addrs.name, strArg addrs.filename,
    strArg addrs.funcname, uintArg lineNum]

/-- The specifiers of `lineFormat` with these arguments. -/
def frontTaken (addrs : Front ℕ) (lineNum : ℕ) : List (Taken Arg) :=
  [strTakenAt 0 0 addrs.stamp, strTakenAt 2 3 addrs.level, strTakenAt 5 6 addrs.name,
    strTakenAt 8 9 addrs.filename, strTakenAt 11 13 addrs.funcname,
    ⟨{ begin_ := 15, end_ := 16, terminal := 'd' }, [], uintArg lineNum⟩]

/-- The front of a line. -/
def frontText (strings : Front (List UInt8)) (lineNum : ℤ) : List UInt8 :=
  strText strings.stamp ++ (charBytes [' '] ++ strText strings.level) ++
    (charBytes [' '] ++ strText strings.name) ++ (charBytes [' '] ++ strText strings.filename) ++
      (charBytes ['-', '>'] ++ strText strings.funcname) ++
        (charBytes [':'] ++ decimalText lineNum) ++ charBytes [']', ' ']

lemma dealt_lineFormat (addrs : Front ℕ) (lineNum : ℕ) :
    ∃ last, dealt lineFormat (frontArgs addrs lineNum) =
        some (lineFormat, frontTaken addrs lineNum, last) ∧
      literalText lineFormat last = charBytes [']', ' '] := ⟨_, rfl, rfl⟩

/-- Strings stand at their addresses. -/
structure FrontAt (mem : Mem) (addrs : Front ℕ) (strings : Front (List UInt8)) : Prop where
  stamp : StringIs mem addrs.stamp strings.stamp
  level : StringIs mem addrs.level strings.level
  name : StringIs mem addrs.name strings.name
  filename : StringIs mem addrs.filename strings.filename
  funcname : StringIs mem addrs.funcname strings.funcname

/-- The address `i` belongs to one of the strings. -/
def FrontAt.Reads (addrs : Front ℕ) (strings : Front (List UInt8)) (i : ℕ) : Prop :=
  ∃ x ∈ addrs.all.zip strings.all, x.1 ≤ i ∧ i ≤ x.1 + x.2.length

section

variable {mem : Mem} {addrs : Front ℕ} {strings : Front (List UInt8)} {lineNum : ℕ}

lemma intValue_uintArg {n : ℕ} (h : n < 2 ^ 32) :
    Arg.intValue ⟨4, false⟩ (uintArg n).bytes = n := by
  have hvalue : leValue (uintArg n).bytes = n := leValue_leBytes (by simpa using h)
  rw [Arg.intValue, hvalue]
  rfl

lemma takenText_front (h : FrontAt mem addrs strings) (hnum : lineNum < 2 ^ 32) (lib : CLib) :
    takenText lib lineFormat mem (frontTaken addrs lineNum) ++ charBytes [']', ' '] =
      frontText strings lineNum := by
  have hint : (⟨{ begin_ := 15, end_ := 16, terminal := 'd' }, [], uintArg lineNum⟩ :
      Taken Arg).text lib lineFormat mem = charBytes [':'] ++ decimalText lineNum := by
    have hemit := emitted_decimal (show (uintArg lineNum).type = .int ⟨4, false⟩ from rfl) lib
      lineFormat 15 16 mem
    rw [intValue_uintArg hnum] at hemit
    exact hemit
  have hlit1 (a : ℕ) : literalText lineFormat (strTakenAt 0 0 a).SI = [] := rfl
  have hlit2 (a : ℕ) : literalText lineFormat (strTakenAt 2 3 a).SI = charBytes [' '] := rfl
  have hlit3 (a : ℕ) : literalText lineFormat (strTakenAt 5 6 a).SI = charBytes [' '] := rfl
  have hlit4 (a : ℕ) : literalText lineFormat (strTakenAt 8 9 a).SI = charBytes [' '] := rfl
  have hlit5 (a : ℕ) : literalText lineFormat (strTakenAt 11 13 a).SI = charBytes ['-', '>'] := rfl
  rw [takenText, frontTaken, List.flatMap_cons, List.flatMap_cons, List.flatMap_cons,
    List.flatMap_cons, List.flatMap_cons, List.flatMap_singleton, hint,
    text_strTakenAt h.stamp, text_strTakenAt h.level, text_strTakenAt h.name,
    text_strTakenAt h.filename, text_strTakenAt h.funcname, hlit1, hlit2, hlit3, hlit4, hlit5,
    frontText, List.nil_append]
  simp only [List.append_assoc]

lemma ne_n_of_mem_front {t : Taken Arg} (ht : t ∈ frontTaken addrs lineNum) :
    t.SI.terminal ≠ 'n' := by
  have hall : ∀ t ∈ frontTaken addrs lineNum, t.SI.terminal = 's' ∨ t.SI.terminal = 'd' := by
    simp [frontTaken, strTakenAt]
  rcases hall t ht with h | h <;> rw [h] <;> decide

/-- Nothing but the strings is read. -/
lemma reads_of_mem_front (h : FrontAt mem addrs strings) {t : Taken Arg}
    (ht : t ∈ frontTaken addrs lineNum) {i : ℕ} (hi : t.StringAt mem i) :
    FrontAt.Reads addrs strings i := by
  simp only [frontTaken, List.mem_cons, List.not_mem_nil, or_false] at ht
  rcases ht with rfl | rfl | rfl | rfl | rfl | rfl
  · exact ⟨(addrs.stamp, strings.stamp), by simp [Front.all], h.stamp.bounds_of_stringAt hi⟩
  · exact ⟨(addrs.level, strings.level), by simp [Front.all], h.level.bounds_of_stringAt hi⟩
  · exact ⟨(addrs.name, strings.name), by simp [Front.all], h.name.bounds_of_stringAt hi⟩
  · exact ⟨(addrs.filename, strings.filename), by simp [Front.all],
      h.filename.bounds_of_stringAt hi⟩
  · exact ⟨(addrs.funcname, strings.funcname), by simp [Front.all],
      h.funcname.bounds_of_stringAt hi⟩
  · exact absurd hi (not_stringAt (by dsimp only; decide) _ _)

/-- **The front of a line** is printed as one text. -/
lemma cfmtStr_front {out : OutbufArg} (h : FrontAt out.mem addrs strings)
    (hnum : lineNum < 2 ^ 32) (hfree : ∀ i, FrontAt.Reads addrs strings i → ¬out.Free i)
    (lib : CLib) :
    cfmtStrOutbufArg lib lineFormat (frontArgs addrs lineNum) out =
      some (out.write (frontText strings lineNum)) := by
  obtain ⟨last, hd, hlast⟩ := dealt_lineFormat addrs lineNum
  rw [write_of_dealt lib hd (fun t ht => ne_n_of_mem_front ht)
    fun t ht i hi => hfree i (reads_of_mem_front h ht hi), dealtText, hlast, takenText_front h hnum]

end

/-! ### The time -/

/-- What fits of a C string is a C string. -/
lemma HoldsString.stringIs {mem mem' : Mem} {buffer : ℕ} {text : List UInt8}
    (h : HoldsString mem buffer 100 text mem') (hlt : buffer < 2 ^ 64) :
    StringIs mem' buffer (text.take 99) := by
  have hlen : (text.take 99).length = min text.length 99 := by
    rw [List.length_take, min_comm]
  have hcontent := h.content_eq
  have hend := h.nul_eq
  norm_num only at hcontent hend
  exact
    { address_lt := hlt
      nul_notMem := fun hmem => h.nul_notMem (List.mem_of_mem_take hmem)
      length_le := by omega
      slice_eq := by rw [hlen, hcontent]
      end_eq := by rw [hlen, hend] }

/-- The object occupies the address `i`, with its array or one of its strings. -/
def TimestampFormatter.Places.Occupies (places : Places) (tf : TimestampFormatter) (i : ℕ) : Prop :=
  places.buffer ≤ i ∧ i < places.buffer + 100 ∨
    places.ts1 ≤ i ∧ i < places.ts1 + (tf.preFormattedTs1.length + 1) ∨
      places.ts2 ≤ i ∧ i < places.ts2 + (tf.preFormattedTs2.length + 1)

/-- The strings of an object, and then its array: nothing else changes. -/
lemma frame_of_put {places : Places} {tf : TimestampFormatter} {mem mem' : Mem} {text : List UInt8}
    (h : Holds (places.put mem tf) places.buffer 100 text mem') {i : ℕ}
    (hi : ¬places.Occupies tf i) : mem' i = mem i := by
  rw [Places.Occupies, not_or, not_or] at hi
  obtain ⟨hbuffer, hts1, hts2⟩ := hi
  rw [h.frame i (by omega), Places.put, writeAt_of_disjoint, writeAt_of_disjoint]
  · rw [List.length_append, List.length_singleton]
    omega
  · rw [List.length_append, List.length_singleton]
    omega

/-- `timeFmt_` with the strings of a time. -/
def sinkTime (lib : TimeLib) (timestamp : ℤ) : TimestampFormatter :=
  (split sinkPattern .localTime 0 (.qus, 18)).textsAt lib timestamp

/-- The constructor of `SinkLogger` makes it. -/
lemma new_sinkPattern {lib : TimeLib} (h : lib.Lawful) (now : ℤ) :
    new lib sinkPattern .localTime now = some (.ok (sinkTime lib now)) := by
  have hsearch : searchAll sinkPattern = .ok (.qus, 18) := by decide
  have htexts : preFormat lib (split sinkPattern .localTime now (.qus, 18)) =
      some (sinkTime lib now) := preFormat_eq h fun _ => rfl
  rw [new, hsearch]
  simp only [htexts, Option.map_some]

/-- The time in front of a line. -/
def stampText (lib : TimeLib) (timestampNs : ℤ) : List UInt8 :=
  (strText (lib.strftime (charBytes "%Y-%m-%d %H:%M:%S,".toList)
      (lib.localtime (timestampNs.tdiv 1000000000))) ++
    fractionText .qus (extractedNs timestampNs)).take 99

/-- **The time** is that of the entry, whatever was printed before. -/
lemma formatTimestamp_stamp {lib : TimeLib} (h : lib.Lawful) (clib : CLib) {places : Places}
    (mem : Mem) (timestamp timestampNs : ℤ) (hlt : places.buffer < 2 ^ 64)
    (hvalid : places.Valid (sinkTime lib (timestampNs.tdiv 1000000000)).preFormattedTs1
      (sinkTime lib (timestampNs.tdiv 1000000000)).preFormattedTs2) :
    ∃ mem', formatTimestamp lib clib places mem (sinkTime lib timestamp) timestampNs =
        some (sinkTime lib (timestampNs.tdiv 1000000000), mem') ∧
      StringIs mem' places.buffer (stampText lib timestampNs) ∧
      ∀ i, ¬places.Occupies (sinkTime lib (timestampNs.tdiv 1000000000)) i → mem' i = mem i := by
  obtain ⟨tf, htf⟩ : ∃ tf, sinkTime lib (timestampNs.tdiv 1000000000) = tf := ⟨_, rfl⟩
  have hts2 : tf.preFormattedTs2 = [] := by
    rw [← htf]
    exact h.strftime_cString_nil _
  have hts1 : tf.preFormattedTs1 = lib.strftime (charBytes "%Y-%m-%d %H:%M:%S,".toList)
      (lib.localtime (timestampNs.tdiv 1000000000)) := by
    rw [← htf]
    rfl
  have hspec : tf.additionalFormatSpecifier = .qus := by
    rw [← htf]
    rfl
  rw [htf] at hvalid ⊢
  have hnul : 0 ∉ tf.preFormattedTs1 ∧ 0 ∉ tf.preFormattedTs2 := by
    rw [hts1, hts2]
    exact ⟨h.nul_notMem _ _, List.not_mem_nil⟩
  have hplaced := placed_put hvalid hnul (fun _ => hts2) mem
  obtain ⟨mem', hprint, hholds⟩ := printParts_holds hplaced (by simp [hspec])
    (extractedNs_lt timestampNs) clib
  refine ⟨mem', ?_, ?_, fun i hi => frame_of_put hholds.toHolds hi⟩
  · have hcall := formatTimestamp_textsAt h clib places mem
      (split sinkPattern .localTime 0 (.qus, 18)) timestamp timestampNs
    rw [← sinkTime, ← sinkTime, htf, ← extractedNs, hprint] at hcall
    exact hcall
  · have hstring := hholds.stringIs hlt
    have hempty : strText tf.preFormattedTs2 = [] := by
      rw [hts2]
      rfl
    rw [hempty, hspec, hts1, List.append_nil] at hstring
    exact hstring

/-! ### One entry -/

/-- The memory `S` that formatting may overwrite: the buffer of `fmtBuf` at `B`, and what
`timeFmt_` occupies, apart from it. -/
structure Workspace (lib : TimeLib) (S : ℕ → Prop) (B : ℕ) (places : Places) : Prop where
  fmtBuf : ∀ i, B ≤ i → i < B + formatBufferSize → S i
  buffer_lt : places.buffer < 2 ^ 64
  valid : ∀ timestamp, places.Valid (sinkTime lib timestamp).preFormattedTs1
    (sinkTime lib timestamp).preFormattedTs2
  occupies : ∀ timestamp i, places.Occupies (sinkTime lib timestamp) i →
    S i ∧ (i < B ∨ B + formatBufferSize ≤ i)

/-- `fmtBuf` prints to the buffer at `B`, and off `S` the memory is as it was. -/
structure Printing (S : ℕ → Prop) (B : ℕ) (mem : Mem) (out : OutbufArg) : Prop where
  pBufBegin_eq : out.pBufBegin = B
  le_pBuf : B ≤ out.pBuf
  pBufEnd_eq : out.pBufEnd = B + formatBufferSize
  frame : ∀ i, ¬S i → out.mem i = mem i

/-- Between two entries. -/
structure Ready (lib : TimeLib) (S : ℕ → Prop) (B : ℕ) (mem : Mem) (s : SinkFormat) : Prop where
  printing : Printing S B mem s.fmtBuf
  timeFmt : ∃ timestamp, s.timeFmt = sinkTime lib timestamp

section

variable {S : ℕ → Prop} {B : ℕ} {mem : Mem} {out : OutbufArg}

lemma Printing.write (h : Printing S B mem out)
    (hS : ∀ i, B ≤ i → i < B + formatBufferSize → S i) (bs : List UInt8) :
    Printing S B mem (out.write bs) where
  pBufBegin_eq := by rw [OutbufArg.pBufBegin_write, h.pBufBegin_eq]
  le_pBuf := by
    rw [OutbufArg.pBuf_write]
    exact h.le_pBuf.trans (Nat.le_add_right _ _)
  pBufEnd_eq := by rw [OutbufArg.pBufEnd_write, h.pBufEnd_eq]
  frame i hi := by
    rw [OutbufArg.mem_write_of_not_free, h.frame i hi]
    rintro ⟨hle, hlt⟩
    rw [h.pBufEnd_eq] at hlt
    exact hi (hS i (h.le_pBuf.trans hle) hlt)

lemma Printing.not_free (h : Printing S B mem out)
    (hS : ∀ i, B ≤ i → i < B + formatBufferSize → S i) {i : ℕ} (hi : ¬S i) : ¬out.Free i := by
  rintro ⟨hle, hlt⟩
  rw [h.pBufEnd_eq] at hlt
  exact hi (hS i (h.le_pBuf.trans hle) hlt)

/-- Bytes off `S` are as they were. -/
lemma Printing.slice_eq (h : Printing S B mem out) {a n : ℕ}
    (hout : ∀ i, a ≤ i → i < a + n → ¬S i) : slice out.mem a n = slice mem a n :=
  slice_congr fun i hi hi' => h.frame i (hout i hi hi')

/-- What `fwrite` is given of a line. -/
def lineBytes (text : List UInt8) : List UInt8 :=
  text.take (sinkSize (UInt64.ofNat text.length))

/-- As long as the count fits, what fits of the buffer. -/
lemma lineBytes_eq {text : List UInt8} (h : text.length < 2 ^ 64) :
    lineBytes text = text.take (formatBufferSize - 1) := by
  rw [lineBytes, sinkSize, UInt64.toNat_ofNat', Nat.mod_eq_of_lt h]
  split_ifs with hlt
  · rw [List.take_of_length_le le_rfl, List.take_of_length_le hlt.le]
  · rfl

lemma slice_lineBytes (mem : Mem) (B : ℕ) (text : List UInt8) :
    slice ((OutbufArg.new mem B formatBufferSize).write text).mem B
      (sinkSize ((OutbufArg.new mem B formatBufferSize).write text).written) = lineBytes text := by
  have hsize : sinkSize (UInt64.ofNat text.length) ≤ min text.length (formatBufferSize - 1) := by
    rw [sinkSize, UInt64.toNat_ofNat']
    have hmod := Nat.mod_le text.length (2 ^ 64)
    split_ifs <;> omega
  have hsize' : sinkSize (UInt64.ofNat text.length) ≤ min (formatBufferSize - 1) text.length :=
    hsize.trans (min_comm _ _).le
  have hslice := slice_writeAt_self mem B (text.take (formatBufferSize - 1))
  rw [List.length_take] at hslice
  rw [OutbufArg.written_write_new, OutbufArg.mem_write_new, lineBytes,
    ← take_slice _ B hsize', hslice, List.take_take, min_eq_left]
  exact hsize.trans (min_le_right _ _)

end

/-- A string stands off `S`. -/
structure Standing (S : ℕ → Prop) (mem : Mem) (a : ℕ) (s : List UInt8) : Prop where
  isString : StringIs mem a s
  off : ∀ i, a ≤ i → i ≤ a + s.length → ¬S i

/-- What the front of the line of the entry at `pos` is printed from, all of it off `S`. -/
structure FrontReady (env : SinkEnv) (S : ℕ → Prop) (mem : Mem) (hdr pos : ℕ)
    (info : StaticFmtInfo) (strings : Front (List UInt8)) : Prop where
  header : ∀ i, pos ≤ i → i < pos + sizeofOneLogEntry → ¬S i
  fmtInfo : env.fmtInfo (leValue (slice mem pos 8)) = some info
  lineNum_lt : info.lineNum < 2 ^ 32
  stamp_eq : strings.stamp =
    stampText env.lib (wrapS 64 (env.tsc2ns (leValue (slice mem (pos + 16) 8))))
  level : ∃ a, env.levelNames[info.severity.toSize]? = some a ∧ Standing S mem a strings.level
  name : Standing S mem hdr strings.name
  filename : Standing S mem info.filename strings.filename
  funcname : Standing S mem info.funcname strings.funcname

section

variable {env : SinkEnv} {S : ℕ → Prop} {B hdr pos : ℕ} {mem : Mem} {places : Places}
  {s : SinkFormat} {info : StaticFmtInfo} {strings : Front (List UInt8)}

/-- **One entry.** Its line is printed, whatever was formatted before. -/
lemma formatEntry_eq (hlib : env.lib.Lawful) (hw : Workspace env.lib S B places)
    (hs : Ready env.lib S B mem s) (hfront : FrontReady env S mem hdr pos info strings)
    {message : List UInt8} (hmessage : ∀ out, Printing S B mem out →
      formatMessage env info pos out = some (out.write message)) :
    ∃ s', formatEntry env places hdr pos s = some s' ∧ Ready env.lib S B mem s' ∧
      s'.lines = s.lines ++ [lineBytes (frontText strings info.lineNum ++ message)] := by
  obtain ⟨hprinting, timestamp, htime⟩ := hs
  obtain ⟨level, hlevelAt, hlevel⟩ := hfront.level
  obtain ⟨ns, hns⟩ : ∃ ns, wrapS 64 (env.tsc2ns (leValue (slice mem (pos + 16) 8))) = ns := ⟨_, rfl⟩
  have hstamp := hfront.stamp_eq
  rw [hns] at hstamp
  -- the header is as it was
  have hid : slice s.fmtBuf.reset.mem pos 8 = slice mem pos 8 :=
    hprinting.slice_eq fun i hi hi' => hfront.header i hi (by rw [sizeofOneLogEntry]; omega)
  have htsc : slice s.fmtBuf.reset.mem (pos + 16) 8 = slice mem (pos + 16) 8 :=
    hprinting.slice_eq fun i hi hi' =>
      hfront.header i (by omega) (by rw [sizeofOneLogEntry]; omega)
  -- the time
  obtain ⟨mem1, hcall, hstring, hframe⟩ := formatTimestamp_stamp hlib env.clib s.fmtBuf.reset.mem
    timestamp ns hw.buffer_lt (hw.valid _)
  have hoff : ∀ i, ¬S i → mem1 i = mem i := by
    intro i hi
    rw [hframe i fun hocc => hi (hw.occupies _ i hocc).1]
    exact hprinting.frame i hi
  have hout : { s.fmtBuf.reset with mem := mem1 } = OutbufArg.new mem1 B formatBufferSize := by
    simp only [OutbufArg.reset, OutbufArg.new, hprinting.pBufBegin_eq, hprinting.pBufEnd_eq]
  obtain ⟨out, hnew⟩ : ∃ out, OutbufArg.new mem1 B formatBufferSize = out := ⟨_, rfl⟩
  have hprinting1 : Printing S B mem out := by
    rw [← hnew]
    exact ⟨rfl, le_rfl, rfl, hoff⟩
  have hmem1 : out.mem = mem1 := by rw [← hnew]; rfl
  -- the front
  have hstands {a : ℕ} {text : List UInt8} (h : Standing S mem a text) : StringIs mem1 a text :=
    h.isString.congr fun i hi hi' => hoff i (h.off i hi hi')
  let addrs : Front ℕ := ⟨places.buffer, level, hdr, info.filename, info.funcname⟩
  have hat : FrontAt out.mem addrs strings := by
    rw [hmem1]
    exact ⟨hstamp ▸ hstring, hstands hlevel, hstands hfront.name, hstands hfront.filename,
      hstands hfront.funcname⟩
  have hfree : ∀ i, FrontAt.Reads addrs strings i → ¬out.Free i := by
    have hlen : strings.stamp.length ≤ 99 := by
      rw [hstamp, stampText, List.length_take]
      exact min_le_left _ _
    rintro i ⟨x, hx, hle, hle'⟩
    simp only [Front.all, List.zip_cons_cons, List.zip_nil_right, List.mem_cons,
      List.not_mem_nil, or_false, addrs] at hx
    rcases hx with rfl | rfl | rfl | rfl | rfl
    · have hocc := (hw.occupies timestamp i (.inl ⟨hle, by dsimp only at hle'; omega⟩)).2
      rw [← hnew]
      rintro ⟨hfree, hfree'⟩
      dsimp only [OutbufArg.new] at hfree hfree'
      omega
    · exact hprinting1.not_free hw.fmtBuf (hlevel.off i hle hle')
    · exact hprinting1.not_free hw.fmtBuf (hfront.name.off i hle hle')
    · exact hprinting1.not_free hw.fmtBuf (hfront.filename.off i hle hle')
    · exact hprinting1.not_free hw.fmtBuf (hfront.funcname.off i hle hle')
  have hprint := cfmtStr_front hat hfront.lineNum_lt hfree env.clib
  -- the message
  have hprinting2 := hprinting1.write hw.fmtBuf (frontText strings info.lineNum)
  have hrest := hmessage _ hprinting2
  rw [OutbufArg.write_append] at hrest
  refine ⟨⟨sinkTime env.lib (ns.tdiv 1000000000),
    out.write (frontText strings info.lineNum ++ message),
    s.lines ++ [lineBytes (frontText strings info.lineNum ++ message)]⟩, ?_,
    ⟨hprinting1.write hw.fmtBuf _, _, rfl⟩, rfl⟩
  have hbegin :=
    (hprinting1.write hw.fmtBuf (frontText strings info.lineNum ++ message)).pBufBegin_eq
  have hline := slice_lineBytes mem1 B (frontText strings info.lineNum ++ message)
  rw [hnew] at hline
  rw [hnew] at hout
  have hargs : [strArg places.buffer, strArg level, strArg hdr, strArg info.filename,
      strArg info.funcname, uintArg info.lineNum] = frontArgs addrs info.lineNum := rfl
  rw [formatEntry]
  dsimp only
  rw [hid, hfront.fmtInfo, Option.bind_eq_bind, Option.bind_some, htsc, hlevelAt,
    Option.bind_eq_bind, Option.bind_some, htime, hns, hcall, Option.bind_eq_bind,
    Option.bind_some, hout, hargs, hprint, Option.bind_eq_bind, Option.bind_some, hrest,
    Option.bind_some, Option.pure_def, hbegin, hline]

/-- The line of the entry at `pos` is `text`, whatever is printed before. -/
def EntryReady (env : SinkEnv) (S : ℕ → Prop) (B : ℕ) (mem : Mem) (hdr pos : ℕ)
    (text : List UInt8) : Prop :=
  ∃ info strings message, FrontReady env S mem hdr pos info strings ∧
    (∀ out, Printing S B mem out → formatMessage env info pos out = some (out.write message)) ∧
    text = frontText strings info.lineNum ++ message

lemma EntryReady.header {text : List UInt8} (h : EntryReady env S B mem hdr pos text) :
    ∀ i, pos ≤ i → i < pos + sizeofOneLogEntry → ¬S i := by
  obtain ⟨_, _, _, hfront, -⟩ := h
  exact hfront.header

lemma EntryReady.format {text : List UInt8} (h : EntryReady env S B mem hdr pos text)
    (hlib : env.lib.Lawful) (hw : Workspace env.lib S B places) (hs : Ready env.lib S B mem s) :
    ∃ s', formatEntry env places hdr pos s = some s' ∧ Ready env.lib S B mem s' ∧
      s'.lines = s.lines ++ [lineBytes text] := by
  obtain ⟨info, strings, message, hfront, hmessage, htext⟩ := h
  rw [htext]
  exact formatEntry_eq hlib hw hs hfront hmessage

end

/-! ### Blocks and buffers -/

/-- Entries from `pos` on, each with its size and the text of its line. -/
def EntriesAt (env : SinkEnv) (S : ℕ → Prop) (B : ℕ) (mem : Mem) (hdr : ℕ) :
    ℕ → List (ℕ × List UInt8) → Prop
  | _, [] => True
  | pos, (size, text) :: rest =>
      leValue (slice mem (pos + 8) 4) = size ∧ sizeofOneLogEntry ≤ size ∧
        EntryReady env S B mem hdr pos text ∧ EntriesAt env S B mem hdr (pos + size) rest

/-- The size of some entries. -/
def sizeSum (items : List (ℕ × List UInt8)) : ℕ := (items.map Prod.fst).sum

/-- Blocks from `pos` on, each behind its `ThreadCheckPoint`. -/
def BlocksAt (env : SinkEnv) (S : ℕ → Prop) (B : ℕ) (mem : Mem) :
    ℕ → List (List (ℕ × List UInt8)) → Prop
  | _, [] => True
  | pos, items :: rest =>
      leValue (slice mem (pos + 20) 4) = sizeSum items ∧
        (∀ i, pos ≤ i → i < pos + sizeofThreadCheckPoint → ¬S i) ∧
        EntriesAt env S B mem pos (pos + sizeofThreadCheckPoint) items ∧
        BlocksAt env S B mem (pos + sizeofThreadCheckPoint + sizeSum items) rest

section

variable {env : SinkEnv} {S : ℕ → Prop} {B : ℕ} {mem : Mem} {places : ℕ → Places}

lemma EntriesAt.length_le {hdr pos : ℕ} {items : List (ℕ × List UInt8)}
    (h : EntriesAt env S B mem hdr pos items) : items.length ≤ sizeSum items := by
  induction items generalizing pos with
  | nil => exact Nat.zero_le _
  | cons item rest ih =>
      obtain ⟨size, text⟩ := item
      obtain ⟨-, hsize, -, hrest⟩ := h
      have hlen := ih hrest
      simp only [sizeSum, List.map_cons, List.sum_cons, List.length_cons, sizeofOneLogEntry]
        at hsize hlen ⊢
      omega

variable (hlib : env.lib.Lawful) (hw : ∀ n, Workspace env.lib S B (places n))

include hlib hw

/-- **The entries of a block**, one line for each. -/
lemma formatEntries_eq {hdr pos : ℕ} {items : List (ℕ × List UInt8)}
    (h : EntriesAt env S B mem hdr pos items) (hle : sizeSum items < 2 ^ 31) {fuel : ℕ}
    (hfuel : items.length ≤ fuel) {s : SinkFormat} (hs : Ready env.lib S B mem s) :
    ∃ s', formatEntries env places hdr fuel pos (sizeSum items) s =
        some (pos + sizeSum items, s') ∧
      Ready env.lib S B mem s' ∧
      s'.lines = s.lines ++ items.map fun item => lineBytes item.2 := by
  induction items generalizing pos fuel s with
  | nil =>
      refine ⟨s, ?_, hs, (List.append_nil _).symm⟩
      cases fuel <;> exact if_pos le_rfl
  | cons item rest ih =>
      obtain ⟨size, text⟩ := item
      obtain ⟨hsize, hge, hentry, hrest⟩ := h
      have hsum : sizeSum ((size, text) :: rest) = size + sizeSum rest := by
        rw [sizeSum, List.map_cons, List.sum_cons, sizeSum]
      rw [hsum] at hle ⊢
      rw [sizeofOneLogEntry] at hge
      obtain ⟨fuel, rfl⟩ : ∃ m, fuel = m + 1 := by
        rw [List.length_cons] at hfuel
        exact ⟨fuel - 1, by omega⟩
      obtain ⟨s1, hcall, hs1, hlines⟩ := hentry.format hlib (hw s.lines.length) hs
      obtain ⟨s', hloop, hs', hlines'⟩ := ih hrest (by omega) (Nat.le_of_succ_le_succ hfuel) hs1
      refine ⟨s', ?_, hs', ?_⟩
      · have hsize1 : leValue (slice s1.fmtBuf.mem (pos + 8) 4) = size := by
          rw [hs1.printing.slice_eq fun i hi hi' => hentry.header i (by omega)
            (by rw [sizeofOneLogEntry]; omega), hsize]
        have hrem : ((size + sizeSum rest : ℕ) : ℤ) - wrapS 32 size = sizeSum rest := by
          rw [wrapS_of_bounds (by omega) (by omega)]
          omega
        have hwrap : wrapS 32 (sizeSum rest : ℤ) = sizeSum rest :=
          wrapS_of_bounds (by omega) (by omega)
        rw [formatEntries, if_neg (by omega), hcall, Option.bind_eq_bind, Option.bind_some]
        dsimp only
        rw [hsize1, hrem, if_pos hwrap, hloop, Nat.add_assoc]
      · rw [hlines', hlines, List.map_cons, List.append_assoc, List.singleton_append]

/-- **A buffer**, one line for each entry of its blocks. -/
lemma formatBlocks_eq {pos : ℕ} {blocks : List (List (ℕ × List UInt8))}
    (h : BlocksAt env S B mem pos blocks) {n : ℕ}
    (hn : n = (blocks.map fun items => sizeofThreadCheckPoint + sizeSum items).sum)
    (hlt : n < 2 ^ 31) {fuel : ℕ} (hfuel : blocks.length ≤ fuel) {s : SinkFormat}
    (hs : Ready env.lib S B mem s) :
    ∃ s', formatBlocks env places fuel pos n s = some s' ∧ Ready env.lib S B mem s' ∧
      s'.lines = s.lines ++ blocks.flatten.map fun item => lineBytes item.2 := by
  induction blocks generalizing pos n fuel s with
  | nil =>
      subst hn
      refine ⟨s, ?_, hs, (List.append_nil _).symm⟩
      cases fuel <;> exact if_pos le_rfl
  | cons items rest ih =>
      obtain ⟨hsize, hoff, hentries, hrest⟩ := h
      rw [List.map_cons, List.sum_cons] at hn
      have hpos : 0 < sizeofThreadCheckPoint := by decide
      obtain ⟨fuel, rfl⟩ : ∃ m, fuel = m + 1 := by
        rw [List.length_cons] at hfuel
        exact ⟨fuel - 1, by omega⟩
      have hread {s : SinkFormat} (hs : Ready env.lib S B mem s) :
          wrapS 32 (leValue (slice s.fmtBuf.mem (pos + 20) 4)) = sizeSum items := by
        rw [hs.printing.slice_eq fun i hi hi' => hoff i (by omega)
          (by rw [sizeofThreadCheckPoint]; omega), hsize, wrapS_of_bounds (by omega) (by omega)]
      obtain ⟨s1, hcall, hs1, hlines⟩ := formatEntries_eq hlib hw hentries (by omega)
        (show items.length ≤ ((sizeSum items : ℕ) : ℤ).toNat from hentries.length_le) hs
      obtain ⟨s', hloop, hs', hlines'⟩ := ih hrest rfl (by omega)
        (Nat.le_of_succ_le_succ hfuel) hs1
      refine ⟨s', ?_, hs', ?_⟩
      · have hrem : wrapS 32 ((n : ℤ) - (((sizeSum items : ℕ) : ℤ) + sizeofThreadCheckPoint)) =
            ((rest.map fun items => sizeofThreadCheckPoint + sizeSum items).sum : ℕ) := by
          rw [wrapS_of_bounds (by omega) (by omega)]
          omega
        rw [formatBlocks, if_neg (by omega)]
        dsimp only
        rw [hread hs, hcall, Option.bind_eq_bind, Option.bind_some]
        dsimp only
        rw [hread hs1, hrem, hloop]
      · rw [hlines', hlines, List.flatten_cons, List.map_append, List.append_assoc]

end

end ConstexprFmtStr
