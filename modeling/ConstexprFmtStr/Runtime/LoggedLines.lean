import Mathlib.Tactic
import ConstexprFmtStr.Lib.Merged
import ConstexprFmtStr.Runtime.EndToEnd
import ConstexprFmtStr.Runtime.SinkLines

/-!
The line of a call of `TZ_LOG`.

* `putHeader_fields`: what the fields of a `OneLogEntry` read back as.
* `formator_write`: what is decoded from an entry is printed as one text.
* `TzCall`: a call with what its macro knows. `TzCall.Makes`: the bytes of its entry, and
  `TzCall.line`: its line.
* `TzCall.At.entryReady`: wherever the bytes are copied to, the line of the entry is that of the
  call. `TzCall.Makes.spec`: a call stands so where its bytes were made.
* `formatBuffer_lines`: a buffer of the sink is formatted to the lines of the calls in it.
* `Pipeline.nextBuffer_lines`: the lines of a thread come first among those of its calls.
-/

namespace ConstexprFmtStr

open Slice Word Framing TimestampFormatter

/-! ### Reading a `OneLogEntry` -/

lemma leValue_leBytes_mod (n x : ℕ) : leValue (leBytes n x) = x % 256 ^ n := by
  induction n generalizing x with
  | zero => rw [pow_zero, Nat.mod_one]; rfl
  | succ n ih =>
      rw [leBytes, leValue, ih, pow_succ', Nat.mod_mul]
      simp

/-- The fields of a `OneLogEntry`, and what stands behind it. -/
lemma putHeader_fields (s : Storage) (pos fmtId n : ℕ) (status : LogEntryStatus)
    (timestamp : ℕ) :
    slice (s.putHeader pos fmtId n status timestamp).mem pos 8 = leBytes 8 fmtId ∧
      slice (s.putHeader pos fmtId n status timestamp).mem (pos + 16) 8 = leBytes 8 timestamp ∧
      ∀ i, pos + sizeofOneLogEntry ≤ i →
        (s.putHeader pos fmtId n status timestamp).mem i = s.mem i := by
  simp only [Storage.putHeader, Storage.mem_put, sizeofOneLogEntry]
  refine ⟨?_, ?_, fun i hi => ?_⟩
  · rw [slice_writeAt_of_disjoint (.inl (by omega)), slice_writeAt_of_disjoint (.inl (by omega)),
      slice_writeAt_of_disjoint (.inl (by omega))]
    exact slice_writeAt_self _ _ (leBytes 8 fmtId)
  · exact slice_writeAt_self _ _ (leBytes 8 timestamp)
  · rw [writeAt_of_disjoint, writeAt_of_disjoint, writeAt_of_disjoint, writeAt_of_disjoint] <;>
      simp only [length_leBytes, List.length_singleton] <;> omega

/-! ### Decoding -/

/-- An entry stands where nothing has changed. -/
lemma EntryAt.congr {mem mem' mem'' : Mem} {i j : ℕ} {ts : List (Taken Arg)}
    (h : EntryAt mem mem' i j ts)
    (hslots : ∀ k, i ≤ k → k < i + (ts.map Taken.slotSize).sum → mem'' k = mem' k)
    (hstrings : ∀ k, j ≤ k → k < j + (ts.map (Taken.stringSize mem)).sum → mem'' k = mem' k) :
    EntryAt mem mem'' i j ts := by
  have h0 : EntryAt mem mem' (0 + i) (0 + j) ts := by rwa [Nat.zero_add, Nat.zero_add]
  have hmoved : EntryAt mem mem'' (0 + i) (0 + j) ts :=
    h0.relocate (by rw [Nat.zero_add]; exact slice_congr hslots)
      (by rw [Nat.zero_add]; exact slice_congr hstrings)
  rwa [Nat.zero_add, Nat.zero_add] at hmoved

/-- **One specifier**, from an entry: the text of the argument itself. -/
lemma formatTaken_write {t : Taken Arg} (hn : t.SI.terminal ≠ 'n') {mem : Mem} {out : OutbufArg}
    {i j : ℕ} (hslot : slice out.mem i t.slotSize = t.slotBytes i j)
    (hstring : slice out.mem j (t.stringSize mem) = t.stringBytes mem)
    (hle : i + t.slotSize ≤ j) (hfits : j + t.stringSize mem ≤ 2 ^ 64)
    (hfree : ∀ k, i ≤ k → k < j + t.stringSize mem → ¬out.Free k) (lib : CLib)
    (fmt : List Char) :
    formatTaken lib fmt (out, i) t = (out.write (t.text lib fmt mem), i + t.slotSize) := by
  obtain ⟨hds, hsame, hat⟩ := fetch_eq hslot hstring hle hfits
  have hW : (t.fetch out.mem i).W = t.W := by rw [Taken.W, Taken.W, hds]; rfl
  have hP : (t.fetch out.mem i).P = t.P := by rw [Taken.P, Taken.P, hds]; rfl
  have hprint : (t.fetch out.mem i).print lib fmt out =
      out.write (emitted lib fmt t.SI (t.fetch out.mem i).arg t.W t.P out.mem) := by
    rw [Taken.print, hW, hP]
    refine converterSingle_eq lib fmt hn _ t.W t.P fun k hk hk' => ?_
    have hstringAt : (t.fetch out.mem i).StringAt out.mem k := by
      rw [Taken.StringAt, Taken.prec, hW, hP]
      exact ⟨hk, hk'⟩
    obtain ⟨hlo, hhi⟩ := hat k hstringAt
    exact hfree k (by omega) hhi
  rw [formatTaken, hprint, emitted_congr hsame lib fmt]
  rfl

/-- **All specifiers**, from an entry. -/
lemma foldl_formatTaken {mem : Mem} {ts : List (Taken Arg)} (hn : ∀ t ∈ ts, t.SI.terminal ≠ 'n')
    {out : OutbufArg} {i j : ℕ} (hentry : EntryAt mem out.mem i j ts)
    (hle : i + (ts.map Taken.slotSize).sum ≤ j)
    (hfits : j + (ts.map (Taken.stringSize mem)).sum ≤ 2 ^ 64)
    (hfree : ∀ k, i ≤ k → k < j + (ts.map (Taken.stringSize mem)).sum → ¬out.Free k) (lib : CLib)
    (fmt : List Char) :
    (ts.foldl (formatTaken lib fmt) (out, i)).1 = out.write (takenText lib fmt mem ts) := by
  induction ts generalizing out i j with
  | nil => exact (OutbufArg.write_nil out).symm
  | cons t ts ih =>
      obtain ⟨hslot, hstring, hrest⟩ := hentry
      rw [List.map_cons, List.sum_cons] at hle
      rw [List.map_cons, List.sum_cons] at hfits hfree
      have hstep := formatTaken_write (hn t List.mem_cons_self) hslot hstring (by omega)
        (by omega) (fun k hk hk' => hfree k hk (by omega)) lib fmt
      -- the rest of the entry is as it was
      have hkept (k : ℕ) (hk : i ≤ k)
          (hk' : k < j + (t.stringSize mem + (ts.map (Taken.stringSize mem)).sum)) :
          (out.write (t.text lib fmt mem)).mem k = out.mem k :=
        OutbufArg.mem_write_of_not_free (hfree k hk hk') _
      have hrest' : EntryAt mem (out.write (t.text lib fmt mem)).mem (i + t.slotSize)
          (j + t.stringSize mem) ts :=
        hrest.congr (fun k hk hk' => hkept k (by omega) (by omega))
          fun k hk hk' => hkept k (by omega) (by omega)
      have hloop := ih (fun u hu => hn u (List.mem_cons_of_mem _ hu)) hrest' (by omega)
        (by omega) fun k hk hk' hf =>
          hfree k (by omega) (by omega) (OutbufArg.free_of_free_write hf)
      rw [List.foldl_cons, hstep, hloop, OutbufArg.write_append]
      rfl

/-- **`formator`** prints one text, that of the arguments themselves. -/
lemma formator_write {SIs : List SpecInfo} (hne : SIs ≠ []) {args : List Arg}
    {ts : List (Taken Arg)} (hts : takeAll SIs args = some ts)
    (hn : ∀ t ∈ ts, t.SI.terminal ≠ 'n') {mem : Mem} {out : OutbufArg} {input : ℕ}
    (hentry : EntryAt mem out.mem input (input + (ts.map Taken.slotSize).sum) ts)
    (hfits : input + ((ts.map Taken.slotSize).sum + (strSizes mem ts).sum) ≤ 2 ^ 64)
    (hfree : ∀ k, input ≤ k →
      k < input + ((ts.map Taken.slotSize).sum + (strSizes mem ts).sum) → ¬out.Free k)
    (lib : CLib) (fmt : List Char) :
    formator lib fmt SIs (args.map Arg.type) out input =
      some (out.write (takenText lib fmt mem ts ++ literalText fmt (SIs.getLast hne))) := by
  rw [sum_strSizes] at hfits hfree
  have hloop := foldl_formatTaken hn hentry le_rfl (by omega)
    (fun k hk hk' => hfree k hk (by omega)) lib fmt
  rw [formator_eq lib fmt hne, hts, Option.map_some, hloop, OutbufArg.write_append]

/-! ### The rest of a line -/

/-- The rest of the line of an entry that was too large. -/
def illegalText (n : ℕ) : List UInt8 :=
  charBytes ("<ILLEGAL_ARGS_SIZE>".toList ++
      "\n\tThe total size of the arguments to be formatted by TZLog is [".toList) ++
    unsignedText n ++ charBytes "], exceeding the maximum value allowed [".toList ++
      decimalText formatArgsMaximumSize ++
        charBytes ("], ".toList ++ "please check the log input!!!\n".toList)

section

variable (lib : CLib) (out : OutbufArg)

lemma cfmtStr_newline :
    cfmtStrOutbufArg lib ['\n', nul] [] out = some (out.write (charBytes ['\n'])) := by
  have hd : ∃ last, dealt ['\n', nul] [] = some (['\n', nul], [], last) ∧
      literalText ['\n', nul] last = charBytes ['\n'] := ⟨_, rfl, rfl⟩
  obtain ⟨last, hd, hlast⟩ := hd
  rw [write_of_dealt lib hd (List.forall_mem_nil _) (List.forall_mem_nil _), dealtText, hlast]
  rfl

set_option maxRecDepth 4000 in
/-- What `CFMT_STR_OUTBUFARG` makes of `illegalFormat`. -/
lemma dealt_illegalFormat (argSize maximum : Arg) :
    ∃ last, dealt illegalFormat [argSize, maximum] =
        some (illegalFormat, [⟨{ begin_ := 0, end_ := 82, terminal := 'u' }, [], argSize⟩,
          ⟨{ begin_ := 84, end_ := 124, terminal := 'd' }, [], maximum⟩], last) ∧
      literalText illegalFormat { begin_ := 0, end_ := 82, terminal := 'u' } =
        charBytes ("<ILLEGAL_ARGS_SIZE>".toList ++
          "\n\tThe total size of the arguments to be formatted by TZLog is [".toList) ∧
      literalText illegalFormat { begin_ := 84, end_ := 124, terminal := 'd' } =
        charBytes "], exceeding the maximum value allowed [".toList ∧
      literalText illegalFormat last =
        charBytes ("], ".toList ++ "please check the log input!!!\n".toList) :=
  ⟨_, rfl, rfl, rfl, rfl⟩

lemma wrapU_mod {w v : ℕ} (h : w ≤ v) (n : ℕ) : wrapU w ((n % 2 ^ v : ℕ) : ℤ) = wrapU w n := by
  have hdvd : 2 ^ w ∣ 2 ^ v := pow_dvd_pow 2 h
  have hcast (m : ℕ) : wrapU w m = m % 2 ^ w := by
    rw [wrapU]
    exact_mod_cast Int.toNat_natCast (m % 2 ^ w)
  rw [hcast, hcast, Nat.mod_mod_of_dvd n hdvd]

lemma cfmtStr_illegal (n : ℕ) :
    cfmtStrOutbufArg lib illegalFormat
        [uintArg (wrapU 32 ((n % 2 ^ 64 : ℕ) : ℤ)), IntSpec.intArg formatArgsMaximumSize] out =
      some (out.write (illegalText n)) := by
  obtain ⟨m, hm⟩ : ∃ m, wrapU 32 ((n % 2 ^ 64 : ℕ) : ℤ) = m := ⟨_, rfl⟩
  obtain ⟨last, hd, h1, h2, hlast⟩ :=
    dealt_illegalFormat (uintArg m) (IntSpec.intArg formatArgsMaximumSize)
  have hlt : m < 2 ^ 32 := by
    rw [← hm]
    exact wrapU_lt _ _
  have hsize : unsignedText (Arg.intValue ⟨4, false⟩ (uintArg m).bytes) = unsignedText n := by
    rw [intValue_uintArg hlt, unsignedText, unsignedText, wrapU_natCast hlt, ← hm,
      wrapU_mod (by norm_num)]
  have hmaximum : Arg.intValue ⟨4, true⟩ (IntSpec.intArg formatArgsMaximumSize).bytes =
      formatArgsMaximumSize := by decide
  have hu := emitted_unsigned (show (uintArg m).type = .int ⟨4, false⟩ from rfl) lib
    illegalFormat 0 82 out.mem
  have hd' := emitted_decimal
    (show (IntSpec.intArg formatArgsMaximumSize).type = .int ⟨4, true⟩ from rfl) lib
    illegalFormat 84 124 out.mem
  rw [h1, hsize] at hu
  rw [h2, hmaximum] at hd'
  have htext : dealtText lib out.mem (illegalFormat,
      [⟨{ begin_ := 0, end_ := 82, terminal := 'u' }, [], uintArg m⟩,
        ⟨{ begin_ := 84, end_ := 124, terminal := 'd' }, [],
          IntSpec.intArg formatArgsMaximumSize⟩], last) = illegalText n :=
    calc _ = emitted lib illegalFormat { begin_ := 0, end_ := 82, terminal := 'u' } (uintArg m)
              0 (-1) out.mem ++
            emitted lib illegalFormat { begin_ := 84, end_ := 124, terminal := 'd' }
              (IntSpec.intArg formatArgsMaximumSize) 0 (-1) out.mem ++
            literalText illegalFormat last := by
          rw [dealtText, takenText, List.flatMap_cons, List.flatMap_singleton]
          rfl
      _ = illegalText n := by
          rw [hu, hd', hlast, illegalText]
          simp only [List.append_assoc]
  rw [hm, write_of_dealt lib hd, htext]
  · intro t ht
    simp only [List.mem_cons, List.not_mem_nil, or_false] at ht
    rcases ht with rfl | rfl <;> dsimp only <;> decide
  · intro t ht i hi
    refine absurd hi (not_stringAt ?_ _ _)
    simp only [List.mem_cons, List.not_mem_nil, or_false] at ht
    rcases ht with rfl | rfl <;> dsimp only <;> decide

end

/-! ### A call and its entry -/

/-- A call `TZ_LOG(severity, format, args...)`: what its macro knows of it, the format without
its '\0', the memory when it is made, and what `rdtsc()` returns. -/
structure TzCall where
  severity : LogLevel
  format : List Char
  args : List Arg
  filename : List UInt8
  funcname : List UInt8
  lineNum : ℕ
  fmtInfo : ℕ
  mem : Mem
  timestamp : ℕ

/-- What a call compiles to: its specifiers, the run-time string, and the specifiers with their
arguments. -/
structure Compiled where
  SIs : List SpecInfo
  kRTStr : List Char
  ts : List (Taken Arg)

namespace TzCall

/-- The call compiles, and has no `%n`. -/
structure Compiles (call : TzCall) (c : Compiled) : Prop where
  nul_notMem : nul ∉ call.format
  fits : ∀ p ∈ scan call.format, p.FitsInt
  specInfos_eq : specInfos (call.format ++ [nul]) = .ok c.SIs
  runTimeStr_eq : runTimeStr (call.format ++ [nul]) = .ok c.kRTStr
  args_le : countArgsRequired c.SIs ≤ call.args.length
  takeAll_eq : takeAll c.SIs call.args = some c.ts
  ne_n : ∀ t ∈ c.ts, t.SI.terminal ≠ 'n'

variable {call : TzCall} {c : Compiled}

lemma Compiles.isPack (h : call.Compiles c) : IsPack c.SIs :=
  isPack_specInfos h.nul_notMem h.fits h.specInfos_eq

/-- `kArgsSize`. -/
def kArgsSize (c : Compiled) : ℕ := (c.ts.map Taken.slotSize).sum

/-- `bufSize`. -/
def bufSize (call : TzCall) (c : Compiled) : ℕ :=
  kArgsSize c + sizeofOneLogEntry + (strSizes call.mem c.ts).sum

/-- The text that the call would print itself. -/
def text (clib : CLib) (call : TzCall) (c : Compiled) : List UInt8 :=
  takenText clib c.kRTStr call.mem c.ts ++
    (c.SIs.getLast?.elim [] fun last => literalText c.kRTStr last)

/-- `CFMT_STR_OUTBUFARG` of the same format and arguments prints this text. -/
lemma Compiles.cfmtStr_eq (h : call.Compiles c) {out : OutbufArg} (hmem : out.mem = call.mem)
    (hfree : ∀ t ∈ c.ts, ∀ i, t.StringAt out.mem i → ¬out.Free i) (clib : CLib) :
    cfmtStrOutbufArg clib (call.format ++ [nul]) call.args out =
      some (out.write (call.text clib c)) := by
  have hlast := List.getLast?_eq_getLast_of_ne_nil h.isPack.ne_nil
  have hd : dealt (call.format ++ [nul]) call.args =
      some (c.kRTStr, c.ts, c.SIs.getLast h.isPack.ne_nil) := by
    rw [dealt, h.specInfos_eq, h.runTimeStr_eq]
    simp only [if_pos (⟨h.args_le, castsCompile_of_ne_n h.takeAll_eq h.ne_n⟩ : _ ∧ _),
      h.takeAll_eq, hlast, Option.bind_eq_bind, Option.bind_some, Option.pure_def]
  rw [write_of_dealt clib hd h.ne_n hfree, dealtText, text, hlast, hmem]
  rfl

/-- `e` are the bytes that the call publishes, wherever `reserveAlloc` has returned, if its
strings do not lie there. -/
def Makes (call : TzCall) (c : Compiled) (e : List UInt8) : Prop :=
  ∃ pos r, tzLog call.mem c.SIs call.args call.fmtInfo call.timestamp pos = some r ∧
    (∀ t ∈ c.ts, ∀ i, t.arg.address ≤ i → i < t.arg.address + t.stringSize call.mem →
      i < pos ∨ pos + r.reserved ≤ i) ∧
    e = slice r.out.mem pos r.finished

/-- How many bytes the call publishes. -/
def entryLength (call : TzCall) (c : Compiled) : ℕ :=
  if call.bufSize c ≤ formatArgsMaximumSize then call.bufSize c else sizeofOneLogEntry + 8

/-- The memory `mem'` has the entry of the call at `pos`. -/
structure At (call : TzCall) (c : Compiled) (mem' : Mem) (pos : ℕ) : Prop where
  fmtId_eq : slice mem' pos 8 = leBytes 8 call.fmtInfo
  size_eq : slice mem' (pos + 8) 4 = leBytes 4 (call.entryLength c)
  timestamp_eq : slice mem' (pos + 16) 8 = leBytes 8 call.timestamp
  normal : call.bufSize c ≤ formatArgsMaximumSize →
    mem' (pos + 12) = LogEntryStatus.normal.toByte ∧
      EntryAt call.mem mem' (pos + sizeofOneLogEntry) (pos + sizeofOneLogEntry + kArgsSize c) c.ts
  illegal : formatArgsMaximumSize < call.bufSize c →
    mem' (pos + 12) = LogEntryStatus.illegalArgsSize.toByte ∧
      slice mem' (pos + sizeofOneLogEntry) 8 = leBytes 8 (call.bufSize c)

/-- **The entry of a call** is where the call has written it. -/
lemma Compiles.at_of_tzLog (h : call.Compiles c) {pos : ℕ} {r : LogCall}
    (hr : tzLog call.mem c.SIs call.args call.fmtInfo call.timestamp pos = some r)
    (hprivate : ∀ t ∈ c.ts, ∀ i, t.arg.address ≤ i →
      i < t.arg.address + t.stringSize call.mem → i < pos ∨ pos + r.reserved ≤ i) :
    r.finished = call.entryLength c ∧ call.At c r.out.mem pos := by
  obtain ⟨ts, hts, hkArgs⟩ := takeAll_of_isPack h.isPack h.args_le
  obtain rfl : c.ts = ts := Option.some.inj (h.takeAll_eq.symm.trans hts)
  have hbuf : (c.ts.map Taken.slotSize).sum + sizeofOneLogEntry + (strSizes call.mem c.ts).sum =
      call.bufSize c := rfl
  rcases le_or_gt (call.bufSize c) formatArgsMaximumSize with hle | hlt
  · rw [tzLog_small h.isPack hts hkArgs hbuf hle] at hr
    obtain rfl := Option.some.inj hr
    have hentry : EntryAt call.mem (afterDump (strSizes call.mem c.ts) c.ts
        (startEntry call.mem pos)).2.mem (pos + sizeofOneLogEntry)
          (pos + sizeofOneLogEntry + kArgsSize c) c.ts := by
      refine entryAt_afterDump (s := startEntry call.mem pos)
        (List.append_nil (strSizes call.mem c.ts)).symm fun t ht i hi hi' => ?_
      have hout := hprivate t ht i hi hi'
      have hstorage : (startEntry call.mem pos).storage = pos + sizeofOneLogEntry := rfl
      dsimp only at hout
      refine ⟨?_, by omega⟩
      show writeAt call.mem pos (List.replicate sizeofOneLogEntry 0) i = call.mem i
      rw [writeAt_of_disjoint]
      rw [List.length_replicate]
      omega
    obtain ⟨hid, htime, hkept⟩ := putHeader_fields
      { (afterDump (strSizes call.mem c.ts) c.ts (startEntry call.mem pos)).2 with
        storage := (afterDump (strSizes call.mem c.ts) c.ts (startEntry call.mem pos)).2.storage2 }
      pos call.fmtInfo (call.bufSize c) .normal call.timestamp
    have hlen : call.entryLength c = call.bufSize c := if_pos hle
    refine ⟨hlen.symm, hid, ?_, htime, fun _ => ⟨(putHeader_mem _ _ _ _ _ _).2, ?_⟩,
      fun hlt => absurd hle (not_le.mpr hlt)⟩
    · rw [hlen]
      exact (putHeader_mem _ _ _ _ _ _).1
    · exact hentry.congr (fun k hk _ => hkept k hk) fun k hk _ => hkept k (by omega)
  · rw [tzLog_large h.isPack hts hkArgs hbuf hlt] at hr
    obtain rfl := Option.some.inj hr
    obtain ⟨hid, htime, hkept⟩ := putHeader_fields ((startEntry call.mem pos).put .header
      (pos + sizeofOneLogEntry) (leBytes 8 (call.bufSize c))) pos call.fmtInfo
        (sizeofOneLogEntry + 8) .illegalArgsSize call.timestamp
    have hlen : call.entryLength c = sizeofOneLogEntry + 8 := if_neg (not_le.mpr hlt)
    refine ⟨hlen.symm, hid, ?_, htime, fun hle => absurd hle (not_le.mpr hlt),
      fun _ => ⟨(putHeader_mem _ _ _ _ _ _).2, ?_⟩⟩
    · rw [hlen]
      exact (putHeader_mem _ _ _ _ _ _).1
    · rw [slice_congr fun k hk _ => hkept k hk]
      exact slice_writeAt_self _ _ (leBytes 8 (call.bufSize c))

lemma slice_sub {f g : Mem} {a b n : ℕ} (h : slice f a n = slice g b n) {k m : ℕ}
    (hkm : k + m ≤ n) : slice f (a + k) m = slice g (b + k) m := by
  have hdrop : ((slice f a n).drop k).take m = ((slice g b n).drop k).take m := by rw [h]
  rwa [drop_slice _ _ (by omega), drop_slice _ _ (by omega), take_slice _ _ (by omega),
    take_slice _ _ (by omega)] at hdrop

/-- **An entry can be copied.** -/
lemma At.copy {mem' mem'' : Mem} {pos pos' : ℕ} (h : call.At c mem' pos)
    (hcopy : slice mem'' pos' (call.entryLength c) = slice mem' pos (call.entryLength c)) :
    call.At c mem'' pos' := by
  have hge : sizeofOneLogEntry ≤ call.entryLength c := by
    rw [entryLength, bufSize]
    split_ifs <;> omega
  rw [sizeofOneLogEntry] at hge
  have hstatus : mem'' (pos' + 12) = mem' (pos + 12) :=
    (List.cons.inj (slice_sub hcopy (k := 12) (m := 1) (by omega))).1
  constructor
  · exact (slice_sub hcopy (k := 0) (by omega)).trans h.fmtId_eq
  · exact (slice_sub hcopy (by omega)).trans h.size_eq
  · exact (slice_sub hcopy (by omega)).trans h.timestamp_eq
  · intro hle
    obtain ⟨hnormal, hentry⟩ := h.normal hle
    have hlen : call.entryLength c = kArgsSize c + 24 + (strSizes call.mem c.ts).sum := if_pos hle
    refine ⟨hstatus.trans hnormal, ?_⟩
    rw [Nat.add_assoc] at hentry ⊢
    refine hentry.relocate (slice_sub hcopy ?_) (slice_sub hcopy ?_)
    · rw [hlen, sizeofOneLogEntry, kArgsSize]
      omega
    · rw [hlen, sizeofOneLogEntry, kArgsSize, sum_strSizes]
      omega
  · intro hlt
    obtain ⟨hillegal, hsize⟩ := h.illegal hlt
    have hlen : call.entryLength c = 24 + 8 := if_neg (not_le.mpr hlt)
    exact ⟨hstatus.trans hillegal, (slice_sub hcopy (by rw [hlen, sizeofOneLogEntry])).trans hsize⟩

/-! ### The line of a call -/

/-- The name of a level. -/
def levelText (severity : LogLevel) : List UInt8 :=
  charBytes (logLevelNames.getD severity.toSize "").toList

/-- The rest of the line: what the call would print itself, or that it has too many arguments. -/
def message (clib : CLib) (call : TzCall) (c : Compiled) : List UInt8 :=
  if call.bufSize c ≤ formatArgsMaximumSize then call.text clib c ++ charBytes ['\n']
  else illegalText (call.bufSize c)

/-- The line of the call, made by the thread `name`. -/
def line (env : SinkEnv) (name : List UInt8) (call : TzCall) (c : Compiled) : List UInt8 :=
  frontText
      { stamp := stampText env.lib (wrapS 64 (env.tsc2ns call.timestamp))
        level := levelText call.severity
        name := name
        filename := call.filename
        funcname := call.funcname } call.lineNum ++ call.message env.clib c

/-- The memory has the `StaticFmtInfo` of the call, with its strings, and its level has a name. -/
structure Installed (env : SinkEnv) (S : ℕ → Prop) (mem : Mem) (call : TzCall) (c : Compiled) :
    Prop where
  fmtInfo : ∃ info, env.fmtInfo call.fmtInfo = some info ∧
    info.convertFN = formator env.clib c.kRTStr c.SIs (call.args.map Arg.type) ∧
    info.lineNum = call.lineNum ∧ info.severity = call.severity ∧
    Standing S mem info.filename call.filename ∧ Standing S mem info.funcname call.funcname
  level : ∃ a, env.levelNames[call.severity.toSize]? = some a ∧
    Standing S mem a (levelText call.severity)
  fmtInfo_lt : call.fmtInfo < 2 ^ 64
  timestamp_lt : call.timestamp < 2 ^ 64
  lineNum_lt : call.lineNum < 2 ^ 32

section

variable {env : SinkEnv} {S : ℕ → Prop} {B hdr pos : ℕ} {mem : Mem} {name : List UInt8}

/-- The rest of the line is printed from the entry. -/
lemma At.formatMessage_eq (h : call.Compiles c) (hat : call.At c mem pos)
    (hoff : ∀ i, pos ≤ i → i < pos + call.entryLength c → ¬S i)
    (hfits : pos + call.entryLength c ≤ 2 ^ 64)
    (hS : ∀ i, B ≤ i → i < B + formatBufferSize → S i) {info : StaticFmtInfo}
    (hconvert : info.convertFN = formator env.clib c.kRTStr c.SIs (call.args.map Arg.type))
    {out : OutbufArg} (hout : Printing S B mem out) :
    formatMessage env info pos out = some (out.write (call.message env.clib c)) := by
  have hsame (i : ℕ) (hi : pos ≤ i) (hi' : i < pos + call.entryLength c) :
      out.mem i = mem i := hout.frame i (hoff i hi hi')
  rcases le_or_gt (call.bufSize c) formatArgsMaximumSize with hle | hlt
  · have hlen : call.entryLength c = kArgsSize c + sizeofOneLogEntry +
        (strSizes call.mem c.ts).sum := if_pos hle
    rw [hlen, sizeofOneLogEntry] at hoff hsame hfits
    obtain ⟨hnormal, hentry⟩ := hat.normal hle
    have hstatus : out.mem (pos + 12) = LogEntryStatus.normal.toByte := by
      rw [hsame _ (by omega) (by omega), hnormal]
    have hentry' : EntryAt call.mem out.mem (pos + sizeofOneLogEntry)
        (pos + sizeofOneLogEntry + (c.ts.map Taken.slotSize).sum) c.ts := by
      rw [sum_strSizes] at hsame
      refine hentry.congr (fun k hk hk' => hsame k ?_ ?_) fun k hk hk' => hsame k ?_ ?_ <;>
        simp only [kArgsSize, sizeofOneLogEntry] at hk hk' ⊢ <;> omega
    have hprint := formator_write h.isPack.ne_nil h.takeAll_eq h.ne_n hentry'
      (by simp only [kArgsSize, sizeofOneLogEntry] at hfits ⊢; omega)
      (fun k hk hk' => hout.not_free hS (hoff k
        (by rw [sizeofOneLogEntry] at hk; omega)
        (by simp only [kArgsSize, sizeofOneLogEntry] at hk' ⊢; omega))) env.clib c.kRTStr
    have hlast := List.getLast?_eq_getLast_of_ne_nil h.isPack.ne_nil
    rw [formatMessage, if_pos hstatus, hconvert, hprint, Option.bind_eq_bind, Option.bind_some,
      cfmtStr_newline, OutbufArg.write_append, message, if_pos hle, text, hlast]
    rfl
  · have hlen : call.entryLength c = 24 + 8 := if_neg (not_le.mpr hlt)
    rw [hlen] at hsame
    obtain ⟨hillegal, hsize⟩ := hat.illegal hlt
    have hstatus : out.mem (pos + 12) = LogEntryStatus.illegalArgsSize.toByte := by
      rw [hsame _ (by omega) (by omega), hillegal]
    have hread : slice out.mem (pos + sizeofOneLogEntry) 8 = leBytes 8 (call.bufSize c) := by
      rw [← hsize, sizeofOneLogEntry]
      exact slice_congr fun k hk hk' => hsame k (by omega) (by omega)
    have hprint := cfmtStr_illegal env.clib out (call.bufSize c)
    have hne : ¬out.mem (pos + 12) = LogEntryStatus.normal.toByte := by
      rw [hstatus]
      decide
    rw [formatMessage, if_neg hne, if_pos hstatus, hread, leValue_leBytes_mod, message,
      if_neg (not_le.mpr hlt)]
    exact hprint

/-- **One call.** Wherever its entry stands, its line is printed. -/
lemma At.entryReady (h : call.Compiles c) (hat : call.At c mem pos)
    (hoff : ∀ i, pos ≤ i → i < pos + call.entryLength c → ¬S i)
    (hfits : pos + call.entryLength c ≤ 2 ^ 64)
    (hS : ∀ i, B ≤ i → i < B + formatBufferSize → S i) (hinst : call.Installed env S mem c)
    (hname : Standing S mem hdr name) :
    EntryReady env S B mem hdr pos (call.line env name c) := by
  obtain ⟨⟨info, hinfo, hconvert, hnum, hseverity, hfile, hfunc⟩, hlevel, hid, htime, hline⟩ :=
    hinst
  have hge : sizeofOneLogEntry ≤ call.entryLength c := by
    rw [entryLength, bufSize]
    split_ifs <;> omega
  have hfmtId : leValue (slice mem pos 8) = call.fmtInfo := by
    rw [hat.fmtId_eq, leValue_leBytes (by norm_num; omega)]
  have htimestamp : leValue (slice mem (pos + 16) 8) = call.timestamp := by
    rw [hat.timestamp_eq, leValue_leBytes (by norm_num; omega)]
  refine ⟨info, _, call.message env.clib c, ?_, fun out hout =>
    hat.formatMessage_eq h hoff hfits hS hconvert hout, by rw [hnum]; rfl⟩
  exact
    { header := fun i hi hi' => hoff i hi (by omega)
      fmtInfo := by rw [hfmtId, hinfo]
      lineNum_lt := by rw [hnum]; exact hline
      stamp_eq := by rw [htimestamp]
      level := by rw [hseverity]; exact hlevel
      name := hname
      filename := hfile
      funcname := hfunc }

end

/-- `Makes`, for a call that compiles. -/
lemma Makes.spec {e : List UInt8} (h : call.Makes c e) (hc : call.Compiles c) :
    e.length = call.entryLength c ∧
      ∀ mem' pos', slice mem' pos' e.length = e → call.At c mem' pos' := by
  obtain ⟨pos, r, hr, hprivate, rfl⟩ := h
  obtain ⟨hfinished, hat⟩ := hc.at_of_tzLog hr hprivate
  refine ⟨(length_slice _ _ _).trans hfinished, fun mem' pos' hslice => hat.copy ?_⟩
  rwa [length_slice, hfinished] at hslice

lemma le_entryLength (call : TzCall) (c : Compiled) :
    sizeofOneLogEntry ≤ call.entryLength c ∧ call.entryLength c < 2 ^ 31 := by
  rw [entryLength, bufSize, sizeofOneLogEntry, formatArgsMaximumSize, stagingBufferSize]
  split_ifs <;> constructor <;> omega

end TzCall

/-! ### Buffers of the sink -/

/-- The entry `e` is that of a call, and the memory has what its line is printed from. -/
structure Logged (env : SinkEnv) (S : ℕ → Prop) (mem : Mem) (e : List UInt8)
    (x : TzCall × Compiled) : Prop where
  compiles : x.1.Compiles x.2
  makes : x.1.Makes x.2 e
  installed : x.1.Installed env S mem x.2

/-- The sizes and the lines of entries that go under one name. -/
def items (env : SinkEnv) (name : List UInt8) (es : List (List UInt8))
    (cs : List (TzCall × Compiled)) : List (ℕ × List UInt8) :=
  List.zipWith (fun e x => (e.length, TzCall.line env name x.1 x.2)) es cs

section

variable {env : SinkEnv} {S : ℕ → Prop} {B : ℕ} {mem : Mem}

lemma sizeSum_items {R : List UInt8 → TzCall × Compiled → Prop} {es : List (List UInt8)}
    {cs : List (TzCall × Compiled)} (h : List.Forall₂ R es cs) (name : List UInt8) :
    sizeSum (items env name es cs) = es.flatten.length := by
  induction h with
  | nil => rfl
  | cons _ _ ih =>
      rw [items, List.zipWith_cons_cons, sizeSum, List.map_cons, List.sum_cons, ← sizeSum, ← items,
        ih, List.flatten_cons, List.length_append]

/-- The entries of a block stand one after another. -/
lemma entriesAt_items (hS : ∀ i, B ≤ i → i < B + formatBufferSize → S i) {hdr : ℕ}
    {name : List UInt8} (hname : Standing S mem hdr name) {es : List (List UInt8)}
    {cs : List (TzCall × Compiled)} (h : List.Forall₂ (Logged env S mem) es cs) {pos : ℕ}
    (hbytes : slice mem pos es.flatten.length = es.flatten)
    (hoff : ∀ i, pos ≤ i → i < pos + es.flatten.length → ¬S i)
    (hfits : pos + es.flatten.length ≤ 2 ^ 64) :
    EntriesAt env S B mem hdr pos (items env name es cs) := by
  induction h generalizing pos with
  | nil => trivial
  | @cons e x es cs hx _ ih =>
      obtain ⟨call, c⟩ := x
      rw [List.flatten_cons, List.length_append] at hbytes hoff hfits
      rw [slice_add] at hbytes
      obtain ⟨hfront, hrest⟩ := List.append_inj hbytes (length_slice _ _ _)
      have hcompiles : call.Compiles c := hx.compiles
      have hmakes : call.Makes c e := hx.makes
      have hinst : call.Installed env S mem c := hx.installed
      obtain ⟨hlen, hcopy⟩ := hmakes.spec hcompiles
      have hat := hcopy mem pos hfront
      obtain ⟨hge, hlt⟩ := TzCall.le_entryLength call c
      rw [← hlen] at hge hlt
      have hsize : leValue (slice mem (pos + 8) 4) = e.length := by
        rw [hat.size_eq, hlen, leValue_leBytes]
        omega
      refine ⟨hsize, hge, ?_, ih hrest (fun i hi hi' => hoff i (by omega) (by omega)) (by omega)⟩
      refine hat.entryReady hcompiles (fun i hi hi' => hoff i hi ?_) ?_ hS hinst hname
      · rw [← hlen] at hi'
        omega
      · rw [← hlen]
        omega

/-- The name in a `ThreadCheckPoint`. -/
lemma standing_name {blk : Block} (hsane : blk.Sane) {pos : ℕ} (hlt : pos < 2 ^ 64)
    {rest : List UInt8} (hbytes : slice mem pos (blk.encode ++ rest).length = blk.encode ++ rest)
    (hoff : ∀ i, pos ≤ i → i < pos + sizeofThreadCheckPoint → ¬S i) :
    Standing S mem pos blk.name := by
  obtain ⟨hshort, hnul, -⟩ := hsane
  have hsplit : blk.encode ++ rest = blk.name ++ (0 :: (List.replicate (19 - blk.name.length) 0 ++
      (leBytes 4 blk.bytes.length ++ (blk.bytes ++ rest)))) := by
    have hzeros : List.replicate (20 - blk.name.length) (0 : UInt8) =
        0 :: List.replicate (19 - blk.name.length) 0 := by
      rw [← List.replicate_succ]
      congr 1
      omega
    rw [Block.encode, threadCheckPoint, hzeros]
    simp only [List.append_assoc, List.cons_append]
  rw [hsplit, List.length_append, slice_add] at hbytes
  obtain ⟨hname, hend⟩ := List.append_inj hbytes (length_slice _ _ _)
  rw [List.length_cons, slice_succ] at hend
  exact
    { isString :=
        { address_lt := hlt
          nul_notMem := hnul
          length_le := by omega
          slice_eq := hname
          end_eq := (List.cons.inj hend).1 }
      off := fun i hi hi' => hoff i hi (by rw [sizeofThreadCheckPoint]; omega) }

/-- The line of a formatted entry, if it is that of the call. -/
def callLine (env : SinkEnv) (l : LogLine) (x : TzCall × Compiled) : List UInt8 :=
  lineBytes (TzCall.line env l.name x.1 x.2)

lemma lineBytes_items {blk : Block} (es : List (List UInt8)) (cs : List (TzCall × Compiled)) :
    (items env blk.name es cs).map (fun item => lineBytes item.2) =
      List.zipWith (callLine env) (es.map blk.line) cs := by
  rw [items, List.map_zipWith, List.zipWith_map_left]
  rfl

/-- The blocks of a buffer stand one after another. -/
lemma exists_blocksAt (hS : ∀ i, B ≤ i → i < B + formatBufferSize → S i) {blocks : List Block}
    (hblocks : ∀ blk ∈ blocks, blk.Sane ∧ blk.WholeEntries) {cs : List (TzCall × Compiled)}
    (h : List.Forall₂ (fun l x => Logged env S mem (LogLine.entry l) x)
      (blocks.flatMap Block.lines) cs) {pos : ℕ} {bytes : List UInt8}
    (hdata : bytes = blocks.flatMap Block.encode) (hbytes : slice mem pos bytes.length = bytes)
    (hoff : ∀ i, pos ≤ i → i < pos + bytes.length → ¬S i) (hfits : pos + bytes.length ≤ 2 ^ 64) :
    ∃ itemss, BlocksAt env S B mem pos itemss ∧ itemss.length = blocks.length ∧
      bytes.length = (itemss.map fun items => sizeofThreadCheckPoint + sizeSum items).sum ∧
      (itemss.flatten.map fun item => lineBytes item.2) =
        List.zipWith (callLine env) (blocks.flatMap Block.lines) cs := by
  induction blocks generalizing cs pos bytes with
  | nil =>
      subst hdata
      rw [List.flatMap_nil, List.forall₂_nil_left_iff] at h
      exact ⟨[], trivial, rfl, rfl, by rw [h]; rfl⟩
  | cons blk blocks ih =>
      obtain ⟨hsane, hwhole⟩ := hblocks blk List.mem_cons_self
      obtain ⟨-, hflatten⟩ := hwhole.entries_spec
      rw [List.flatMap_cons] at h
      obtain ⟨us, vs, rfl, hus, hvs⟩ := Merged.exists_of_forall₂_append h
      rw [Block.lines, List.forall₂_map_left_iff] at hus
      rw [List.flatMap_cons] at hdata
      obtain ⟨rest, hrest⟩ : ∃ rest, blocks.flatMap Block.encode = rest := ⟨_, rfl⟩
      rw [hrest] at hdata
      have hlen : bytes.length = sizeofThreadCheckPoint + blk.bytes.length + rest.length := by
        rw [hdata, List.length_append, hsane.length_encode]
      have hpos : 0 < sizeofThreadCheckPoint := by decide
      have hname : Standing S mem pos blk.name :=
        standing_name hsane (by omega) (by rw [← hdata]; exact hbytes)
          fun i hi hi' => hoff i hi (by omega)
      -- the header, the entries, and the rest of the buffer
      obtain ⟨hheader, hentries, hbehind⟩ : slice mem (pos + 20) 4 = leBytes 4 blk.bytes.length ∧
          slice mem (pos + sizeofThreadCheckPoint) blk.bytes.length = blk.bytes ∧
          slice mem (pos + sizeofThreadCheckPoint + blk.bytes.length) rest.length = rest := by
        have hsplit : bytes = (blk.name ++ List.replicate (20 - blk.name.length) 0) ++
            (leBytes 4 blk.bytes.length ++ (blk.bytes ++ rest)) := by
          rw [hdata, Block.encode, threadCheckPoint]
          simp only [List.append_assoc]
        have hfield :
            (blk.name ++ List.replicate (20 - blk.name.length) (0 : UInt8)).length = 20 := by
          have := hsane.name_length
          simp
          omega
        rw [hsplit, List.length_append, slice_add, hfield] at hbytes
        have h₁ := (List.append_inj hbytes (by rw [length_slice, hfield])).2
        rw [List.length_append, slice_add, length_leBytes] at h₁
        obtain ⟨hheader, h₂⟩ := List.append_inj h₁ (by rw [length_slice, length_leBytes])
        rw [List.length_append, slice_add] at h₂
        obtain ⟨hentries, hbehind⟩ := List.append_inj h₂ (length_slice _ _ _)
        exact ⟨hheader, hentries, hbehind⟩
      obtain ⟨itemss, hat, hcount, hsum, hlines⟩ := ih
        (fun b hb => hblocks b (List.mem_cons_of_mem _ hb)) hvs hrest.symm hbehind
        (fun i hi hi' => hoff i (by omega) (by omega)) (by omega)
      have hsize : sizeSum (items env blk.name blk.entries us) = blk.bytes.length := by
        rw [sizeSum_items hus, hflatten]
      have hsane' := hsane.length_le
      refine ⟨items env blk.name blk.entries us :: itemss, ⟨?_, ?_, ?_, ?_⟩, ?_, ?_, ?_⟩
      · rw [hheader, hsize, leValue_leBytes]
        rw [stagingBufferSize] at hsane'
        omega
      · exact fun i hi hi' => hoff i hi (by omega)
      · refine entriesAt_items hS hname hus ?_ (fun i hi hi' => hoff i (by omega) ?_) ?_
        · rwa [hflatten]
        · rw [hflatten] at hi'
          omega
        · rw [hflatten]
          omega
      · rwa [hsize]
      · rw [List.length_cons, List.length_cons, hcount]
      · rw [hlen, List.map_cons, List.sum_cons, ← hsum, hsize]
      · rw [List.flatten_cons, List.map_append, hlines, lineBytes_items, List.flatMap_cons,
          List.zipWith_append, Block.lines]
        rw [Block.lines, List.length_map]
        exact hus.length_eq

end

section

variable {env : SinkEnv} {S : ℕ → Prop} {B : ℕ} {mem : Mem} {places : ℕ → Places}
  {f : SinkFormat}

/-- **A buffer of the sink** is formatted to the lines of the calls whose entries it holds,
whatever was formatted before. -/
theorem formatBuffer_lines (hlib : env.lib.Lawful) (hw : ∀ n, Workspace env.lib S B (places n))
    (hf : Ready env.lib S B mem f) {log : List Block} {b : SinkBuffer} (hb : b.Stored log)
    (hblocks : ∀ blk ∈ b.blocks, blk.Sane ∧ blk.WholeEntries) {cs : List (TzCall × Compiled)}
    (h : List.Forall₂ (fun l x => Logged env S mem (LogLine.entry l) x)
      (b.blocks.flatMap Block.lines) cs) {data : ℕ} (hbytes : slice mem data b.length = b.data)
    (hoff : ∀ i, data ≤ i → i < data + b.length → ¬S i) (hfits : data + b.length ≤ 2 ^ 64) :
    ∃ f', formatBuffer env places data b.length f = some f' ∧ Ready env.lib S B mem f' ∧
      f'.lines = f.lines ++ List.zipWith (callLine env) (b.blocks.flatMap Block.lines) cs := by
  obtain ⟨itemss, hat, hcount, hsum, hlines⟩ :=
    exists_blocksAt (hw 0).fmtBuf hblocks h hb.data_eq hbytes hoff hfits
  have hlt : b.length < 2 ^ 31 := hb.length_le.trans_lt (by decide)
  have hfuel : itemss.length ≤ b.length := by
    have hpos : 0 < sizeofThreadCheckPoint := by decide
    calc itemss.length = (itemss.map fun _ => 1).sum := by simp
      _ ≤ (itemss.map fun items => sizeofThreadCheckPoint + sizeSum items).sum :=
        List.sum_le_sum fun items _ => by omega
      _ = b.length := hsum.symm
  obtain ⟨f', hcall, hf', hlines'⟩ := formatBlocks_eq hlib hw hat hsum hlt hfuel hf
  exact ⟨f', hcall, hf', by rw [hlines', hlines]⟩

end

/-! ### What is printed of a run -/

namespace Pipeline

variable {names : ℕ → ThreadName} {s : Pipeline}

/-- A call of the thread `x.1`, and the line that is printed of it. -/
def printedLine (env : SinkEnv) (names : ℕ → ThreadName) (x : ℕ × TzCall × Compiled) :
    List UInt8 :=
  lineBytes (TzCall.line env (names x.1).name x.2.1 x.2.2)

/-- What one staging buffer has in the buffer that comes next was published behind what was
formatted. -/
lemma Inv.nextBuffer_prefix (h : s.Inv names) {i : ℕ} {b : SinkBuffer}
    (hpc : s.sink.pc = .buffer i) (hb : s.sink.buffersToWrite[i]? = some b) (j : ℕ) :
    s.formattedFrom j ++
        ((b.blocks.flatMap Block.lines).filter fun l => l.src = some j).map LogLine.entry <+:
      s.publishedBy j := by
  have hparse := Sink.reachable_parseInv h.sink fun blk hblk => (h.named blk hblk).2
  rw [hpc] at hparse
  have hbatch : s.sink.batchFrom i = b.blocks ++ s.sink.batchFrom (i + 1) := by
    obtain ⟨hi, rfl⟩ := List.getElem?_eq_some_iff.mp hb
    rw [Sink.batchFrom, List.drop_eq_getElem_cons hi, List.flatMap_cons, Sink.batchFrom]
  have hbalanced : s.sink.formatted ++ b.blocks.flatMap Block.lines <+:
      s.sink.appended.flatMap Block.lines := by
    refine ⟨(s.sink.batchFrom (i + 1) ++ s.sink.queuedBlocks).flatMap Block.lines, ?_⟩
    rw [← hparse, hbatch]
    simp only [List.flatMap_append, List.append_assoc, List.nil_append]
  have hpre := (hbalanced.filter fun l => decide (l.src = some j)).map LogLine.entry
  rw [Sink.lines_filter, List.filter_append, List.map_append] at hpre
  exact hpre.trans (h.appended_prefix j)

/-- The source of a line, for the lines of a block. -/
lemma proj_src (blocks : List Block) (j : ℕ) :
    Merged.proj (fun l : LogLine => l.src.getD 0) j (blocks.flatMap Block.lines) =
      (blocks.flatMap Block.lines).filter fun l => l.src = some j := by
  refine List.filter_congr fun l hl => ?_
  obtain ⟨blk, -, hl⟩ := List.mem_flatMap.mp hl
  obtain ⟨e, -, rfl⟩ := List.mem_map.mp hl
  exact decide_eq_decide.mpr (by simp [Block.line])

section

variable {env : SinkEnv} {S : ℕ → Prop} {B : ℕ} {mem : Mem} {places : ℕ → Places}
  {f : SinkFormat}

/-- **From a call to its line.** In every run, the buffer that the sink thread comes to is
formatted to one line for each of some calls, with the name of the thread that made it; and for
every thread they are its next calls, in their order. -/
theorem nextBuffer_lines (h : (machine names).Reachable s) (hlib : env.lib.Lawful)
    (hw : ∀ n, Workspace env.lib S B (places n)) (hf : Ready env.lib S B mem f)
    {calls : ℕ → List (TzCall × Compiled)}
    (hcalls : ∀ j, List.Forall₂ (Logged env S mem) (s.publishedBy j) (calls j)) {i : ℕ}
    {b : SinkBuffer} (hpc : s.sink.pc = .buffer i) (hb : s.sink.buffersToWrite[i]? = some b)
    {data : ℕ} (hbytes : slice mem data b.length = b.data)
    (hoff : ∀ i, data ≤ i → i < data + b.length → ¬S i) (hfits : data + b.length ≤ 2 ^ 64) :
    ∃ f' printed, formatBuffer env places data b.length f = some f' ∧ Ready env.lib S B mem f' ∧
      f'.lines = f.lines ++ printed.map (printedLine env names) ∧
      printed.length = (b.blocks.flatMap Block.lines).length ∧
      ∀ j, (Merged.proj Prod.fst j printed).map Prod.snd <+:
        (calls j).drop (s.formattedFrom j).length := by
  have hinv := reachable_inv h
  obtain ⟨-, hstore⟩ := Sink.reachable_storeInv hinv.sink
  have hstored := hstore.batch b (List.mem_of_getElem? hb)
  have hblocks : ∀ blk ∈ b.blocks, blk.Sane ∧ blk.WholeEntries := fun blk hblk =>
    ⟨hstore.sane blk (hstored.logged hblk), (hinv.named blk (hstored.logged hblk)).2⟩
  -- the calls of each thread in the buffer
  have hthread (j : ℕ) : ∃ vs, List.Forall₂ (fun l x => Logged env S mem (LogLine.entry l) x)
      (Merged.proj (fun l : LogLine => l.src.getD 0) j (b.blocks.flatMap Block.lines)) vs ∧
        vs <+: (calls j).drop (s.formattedFrom j).length := by
    obtain ⟨rest, hrest⟩ := hinv.nextBuffer_prefix hpc hb j
    have hall := hcalls j
    rw [← hrest] at hall
    obtain ⟨uvs, ws, hws, huvs, -⟩ := Merged.exists_of_forall₂_append hall
    obtain ⟨us, vs, rfl, hus, hvs⟩ := Merged.exists_of_forall₂_append huvs
    rw [List.forall₂_map_left_iff, ← proj_src] at hvs
    refine ⟨vs, hvs, ws, ?_⟩
    rw [hws, hus.length_eq, List.append_assoc, List.drop_left]
  choose vs hvs hprefix using hthread
  obtain ⟨printed, hprinted, hproj⟩ := Merged.exists_attributed hvs
  have hlogged : List.Forall₂ (fun l x => Logged env S mem (LogLine.entry l) x)
      (b.blocks.flatMap Block.lines) (printed.map Prod.snd) := by
    rw [List.forall₂_map_right_iff]
    exact hprinted.imp fun l x hx => hx.2
  obtain ⟨f', hcall, hf', hlines⟩ :=
    formatBuffer_lines hlib hw hf hstored hblocks hlogged hbytes hoff hfits
  refine ⟨f', printed, hcall, hf', ?_, hprinted.length_eq.symm,
    fun j => by rw [hproj]; exact hprefix j⟩
  -- each line has the name of its thread
  have hnames : ∀ l ∈ b.blocks.flatMap Block.lines, l.name = (names (l.src.getD 0)).name := by
    intro l hl
    obtain ⟨blk, hblk, hl⟩ := List.mem_flatMap.mp hl
    obtain ⟨e, -, rfl⟩ := List.mem_map.mp hl
    exact (hinv.named blk (hstored.logged hblk)).1
  have hzip {ls : List LogLine} (hls : ∀ l ∈ ls, l.name = (names (l.src.getD 0)).name)
      {xs : List (ℕ × TzCall × Compiled)}
      (hxs : List.Forall₂ (fun l x => x.1 = l.src.getD 0 ∧ Logged env S mem l.entry x.2) ls xs) :
      List.zipWith (callLine env) ls (xs.map Prod.snd) = xs.map (printedLine env names) := by
    induction hxs with
    | nil => rfl
    | @cons l x ls xs hx _ ih =>
        have hname := hls l List.mem_cons_self
        rw [List.map_cons, List.zipWith_cons_cons, List.map_cons,
          ih fun l hl => hls l (List.mem_cons_of_mem _ hl), callLine, hname, ← hx.1, printedLine]
  rw [hlines, hzip hnames hprinted]

end

end Pipeline

/-! ### Three calls -/

/-- A C library in the time zone UTC that is asked for the beginning of 1970. -/
def epochTime : TimeLib where
  Tm := ℤ
  localtime timestamp := timestamp
  gmtime timestamp := timestamp
  strftime format _ := if format = [] then [] else charBytes "1970-01-01 00:00:00,".toList

lemma epochTime_lawful : epochTime.Lawful where
  strftime_nil _ := rfl
  strftime_ne_nil format tm _ hne := by
    have htext : epochTime.strftime format tm = charBytes "1970-01-01 00:00:00,".toList :=
      if_neg hne
    rw [htext]
    simp [charBytes]
  nul_notMem format tm := by
    show 0 ∉ if format = [] then [] else charBytes "1970-01-01 00:00:00,".toList
    split_ifs <;> decide
  length_lt format tm := by
    show (if format = [] then [] else charBytes "1970-01-01 00:00:00,".toList).length < 2 ^ 62
    split_ifs <;> decide

/-- `TZ_LOG(INFORMATION, "hello")` in the line 7 of `main` in `a.cpp`. -/
def helloCall : TzCall where
  severity := .information
  format := "hello".toList
  args := []
  filename := charBytes "a.cpp".toList
  funcname := charBytes "main".toList
  lineNum := 7
  fmtInfo := 6291456
  mem := fun _ => 0
  timestamp := 0

/-- What it compiles to. -/
def helloCompiled : Compiled where
  SIs := [{ begin_ := 0, end_ := 5 }]
  kRTStr := "hello".toList ++ [nul]
  ts := []

/-- Its entry. -/
def helloEntry : List UInt8 := leBytes 8 6291456 ++ leBytes 4 24 ++ List.replicate 12 0

/-- `TZ_LOG(WARNING, "%s is %d", p, n)` in the line 9, where the string `text` is at `p`. -/
def isCall (text : List UInt8) (n timestamp : ℕ) : TzCall where
  severity := .warning
  format := "%s is %d".toList
  args := [strArg 4096, IntSpec.intArg n]
  filename := charBytes "a.cpp".toList
  funcname := charBytes "main".toList
  lineNum := 9
  fmtInfo := 6291520
  mem := writeAt (fun _ => 0) 4096 text
  timestamp := timestamp

/-- What it compiles to. -/
def isCompiled (n : ℕ) : Compiled where
  SIs := [{ terminal := 's' }, { begin_ := 2, end_ := 6, terminal := 'd' },
    { begin_ := 8, end_ := 8 }]
  kRTStr := "%s is %d".toList ++ [nul]
  ts := [⟨{ terminal := 's' }, [], strArg 4096⟩,
    ⟨{ begin_ := 2, end_ := 6, terminal := 'd' }, [], IntSpec.intArg n⟩]

/-- Its entry: the offset of the string, the number and the string. -/
def isEntry (text : List UInt8) (n timestamp : ℕ) : List UInt8 :=
  leBytes 8 6291520 ++ leBytes 4 (37 + text.length) ++ leBytes 4 0 ++ leBytes 8 timestamp ++
    leBytes 8 12 ++ leBytes 4 n ++ text ++ [0]

/-- The first thread has made the first call and then the second one, for "ab", and the second
thread the second one, for "xyz". -/
def helloBlocks : List Block :=
  [⟨0, [65], helloEntry ++ isEntry [97, 98] 7 1500⟩, ⟨1, [66], isEntry [120, 121, 122] 42 2000000⟩]

/-- A buffer of the sink with the entries. -/
def helloBuffer : SinkBuffer := ⟨0, helloBlocks.flatMap Block.encode, helloBlocks⟩

/-- The memory: the buffer, the names of the levels, the file and the function. -/
def helloMem : Mem :=
  writeAt (writeAt (writeAt (writeAt (fun _ => 0) 2097152 helloBuffer.data) 4194304
    (charBytes ['N', 'A', 'N', nul, 'E', 'R', 'R', nul, 'W', 'R', 'N', nul, 'I', 'N', 'F', nul,
      'D', 'B', 'G', nul])) 4194336 (charBytes "a.cpp".toList)) 4194352 (charBytes "main".toList)

/-- The `StaticFmtInfo` of a call in that function. -/
def helloInfo (c : Compiled) (Ts : List CType) (lineNum : ℕ) (severity : LogLevel) :
    StaticFmtInfo where
  convertFN := formator CLib.ascii c.kRTStr c.SIs Ts
  filename := 4194336
  funcname := 4194352
  lineNum := lineNum
  severity := severity

/-- That of each of the calls. -/
def helloEnv : SinkEnv where
  lib := epochTime
  clib := CLib.ascii
  tsc2ns tsc := tsc
  fmtInfo a :=
    if a = 6291456 then some (helloInfo helloCompiled [] 7 .information)
    else if a = 6291520 then
      some (helloInfo (isCompiled 0) [.charPtr true, .int ⟨4, true⟩] 9 .warning)
    else none
  levelNames := [4194304, 4194308, 4194312, 4194316, 4194320]

/-- The buffers of `timeFmt_` and `fmtBuf`. -/
def helloPlaces : Places := ⟨0, 100, 200⟩

lemma standing_filename : Standing (· < 2097152) helloMem 4194336 (charBytes "a.cpp".toList) :=
  ⟨⟨by norm_num, by decide, by decide, by decide, by decide⟩, fun i hi _ => by omega⟩

lemma standing_funcname : Standing (· < 2097152) helloMem 4194352 (charBytes "main".toList) :=
  ⟨⟨by norm_num, by decide, by decide, by decide, by decide⟩, fun i hi _ => by omega⟩

lemma standing_warning :
    Standing (· < 2097152) helloMem 4194312 (TzCall.levelText .warning) :=
  ⟨⟨by norm_num, by decide, by decide, by decide, by decide⟩, fun i hi _ => by omega⟩

lemma helloCall_logged :
    Logged helloEnv (· < 2097152) helloMem helloEntry (helloCall, helloCompiled) where
  compiles :=
    { nul_notMem := by decide
      fits := by decide
      specInfos_eq := by rfl
      runTimeStr_eq := by rfl
      args_le := by decide
      takeAll_eq := rfl
      ne_n := List.forall_mem_nil _ }
  makes := ⟨0, _, rfl, List.forall_mem_nil _, by decide⟩
  installed :=
    { fmtInfo := ⟨_, rfl, rfl, rfl, rfl, standing_filename, standing_funcname⟩
      level :=
        ⟨4194316, rfl, ⟨by norm_num, by decide, by decide, by decide, by decide⟩, fun i hi _ => by
          omega⟩
      fmtInfo_lt := by norm_num [helloCall]
      timestamp_lt := by norm_num [helloCall]
      lineNum_lt := by norm_num [helloCall] }

/-- The second call, wherever its entry is the one given. -/
lemma isCall_logged {text e : List UInt8} {n timestamp : ℕ}
    (hmakes : (isCall text n timestamp).Makes (isCompiled n) e) (hlt : timestamp < 2 ^ 64) :
    Logged helloEnv (· < 2097152) helloMem e (isCall text n timestamp, isCompiled n) where
  compiles :=
    { nul_notMem := by
        show nul ∉ "%s is %d".toList
        decide
      fits := by
        show ∀ p ∈ scan "%s is %d".toList, p.FitsInt
        decide
      specInfos_eq := by rfl
      runTimeStr_eq := by rfl
      args_le := le_refl 2
      takeAll_eq := rfl
      ne_n := by simp [isCompiled] }
  makes := hmakes
  installed :=
    { fmtInfo := ⟨_, rfl, rfl, rfl, rfl, standing_filename, standing_funcname⟩
      level := ⟨4194312, rfl, standing_warning⟩
      fmtInfo_lt := by norm_num [isCall]
      timestamp_lt := hlt
      lineNum_lt := by norm_num [isCall] }

lemma isCall_makes_ab :
    (isCall [97, 98] 7 1500).Makes (isCompiled 7) (isEntry [97, 98] 7 1500) :=
  ⟨0, _, rfl, by decide, by decide⟩

lemma isCall_makes_xyz :
    (isCall [120, 121, 122] 42 2000000).Makes (isCompiled 42)
      (isEntry [120, 121, 122] 42 2000000) :=
  ⟨0, _, rfl, by decide, by decide⟩

lemma helloPlaces_workspace : Workspace epochTime (· < 2097152) 1048576 helloPlaces := by
  have hlen (timestamp : ℤ) :
      (sinkTime epochTime timestamp).preFormattedTs1.length = 20 ∧
        (sinkTime epochTime timestamp).preFormattedTs2.length = 0 := ⟨rfl, rfl⟩
  refine ⟨fun i _ hi => ?_, by norm_num [helloPlaces], fun timestamp => ?_,
    fun timestamp i hi => ?_⟩
  · rw [formatBufferSize] at hi
    omega
  · obtain ⟨h1, h2⟩ := hlen timestamp
    constructor <;> dsimp only [helloPlaces] <;> omega
  · obtain ⟨h1, h2⟩ := hlen timestamp
    simp only [Places.Occupies, helloPlaces] at hi
    omega

/-- The lines printed before are no matter. -/
def helloFormat : SinkFormat where
  timeFmt := sinkTime epochTime 946684800
  fmtBuf := .new helloMem 1048576 formatBufferSize
  lines := [charBytes "first".toList]

lemma helloFormat_ready : Ready epochTime (· < 2097152) 1048576 helloMem helloFormat where
  printing := ⟨rfl, le_rfl, rfl, fun _ _ => rfl⟩
  timeFmt := ⟨_, rfl⟩

/-- The calls in the order of their entries. -/
def helloCalls : List (TzCall × Compiled) :=
  [(helloCall, helloCompiled), (isCall [97, 98] 7 1500, isCompiled 7),
    (isCall [120, 121, 122] 42 2000000, isCompiled 42)]

lemma length_helloBuffer : helloBuffer.length = 151 := by rfl

lemma helloBuffer_at : slice helloMem 2097152 helloBuffer.length = helloBuffer.data := by
  have hlen := length_helloBuffer
  rw [helloMem, slice_writeAt_of_disjoint (.inl (by omega)),
    slice_writeAt_of_disjoint (.inl (by omega)), slice_writeAt_of_disjoint (.inl (by omega))]
  exact slice_writeAt_self _ _ helloBuffer.data

lemma helloBuffer_fits : 2097152 + helloBuffer.length ≤ 2 ^ 64 := by
  rw [length_helloBuffer]
  norm_num

lemma helloBlocks_lines : helloBlocks.flatMap Block.lines =
    [⟨some 0, [65], helloEntry⟩, ⟨some 0, [65], isEntry [97, 98] 7 1500⟩,
      ⟨some 1, [66], isEntry [120, 121, 122] 42 2000000⟩] := rfl

lemma helloCalls_logged :
    List.Forall₂ (fun l x => Logged helloEnv (· < 2097152) helloMem (LogLine.entry l) x)
      (helloBlocks.flatMap Block.lines) helloCalls := by
  rw [helloBlocks_lines]
  exact .cons helloCall_logged (.cons (isCall_logged isCall_makes_ab (by norm_num))
    (.cons (isCall_logged isCall_makes_xyz (by norm_num)) .nil))

/-- The lines of the three calls. -/
theorem formatBuffer_lines_hello :
    ∃ f', formatBuffer helloEnv (fun _ => helloPlaces) 2097152 151 helloFormat = some f' ∧
      f'.lines = [charBytes "first".toList,
        charBytes "1970-01-01 00:00:00,000000 INF A a.cpp->main:7] hello\n".toList,
        charBytes "1970-01-01 00:00:00,000001 WRN A a.cpp->main:9] ab is 7\n".toList,
        charBytes "1970-01-01 00:00:00,002000 WRN B a.cpp->main:9] xyz is 42\n".toList] := by
  have hstored : SinkBuffer.Stored helloBlocks helloBuffer :=
    ⟨rfl, List.Subset.refl _, by rw [length_helloBuffer]; decide⟩
  have hentries : IsLogEntry helloEntry ∧ IsLogEntry (isEntry [97, 98] 7 1500) ∧
      IsLogEntry (isEntry [120, 121, 122] 42 2000000) :=
    ⟨⟨by decide, by decide⟩, ⟨by decide, by decide⟩, ⟨by decide, by decide⟩⟩
  have hblocks : ∀ blk ∈ helloBlocks, blk.Sane ∧ blk.WholeEntries := by
    obtain ⟨h1, h2, h3⟩ := hentries
    simp only [helloBlocks, List.forall_mem_cons]
    refine ⟨⟨⟨by decide, by decide, by decide⟩, [helloEntry, isEntry [97, 98] 7 1500], ?_, rfl⟩,
      ⟨⟨by decide, by decide, by decide⟩, [isEntry [120, 121, 122] 42 2000000], ?_, rfl⟩,
      List.forall_mem_nil _⟩
    · simp [h1, h2]
    · simp [h3]
  obtain ⟨f', hcall, -, hlines⟩ := formatBuffer_lines epochTime_lawful
    (fun _ => helloPlaces_workspace) helloFormat_ready hstored hblocks helloCalls_logged
    helloBuffer_at (fun i hi _ => by omega) helloBuffer_fits
  refine ⟨f', hcall, hlines.trans ?_⟩
  decide

namespace Pipeline

/-- The two threads make the calls; their entries are appended, and the sink thread comes to them
after a time-out. -/
def helloRun : List PipelineAct :=
  [.allocate 0, .register 0, .allocate 1, .register 1] ++ logSample 0 0 helloEntry ++
    logSample 1 0 (isEntry [120, 121, 122] 42 2000000) ++
    logSample 0 24 (isEntry [97, 98] 7 1500) ++ List.replicate 19 .poll ++
    [.sink .advance, .sink .advance, .sink .advance, .sink (.wake true)]

/-- The state after it. -/
def helloState : Pipeline := ((machine sampleNames).exec new helloRun).getD new

/-- The calls of each thread. -/
def callsOf : ℕ → List (TzCall × Compiled)
  | 0 => [(helloCall, helloCompiled), (isCall [97, 98] 7 1500, isCompiled 7)]
  | 1 => [(isCall [120, 121, 122] 42 2000000, isCompiled 42)]
  | _ + 2 => []

set_option maxRecDepth 8000 in
lemma helloState_published (j : ℕ) :
    List.Forall₂ (Logged helloEnv (· < 2097152) helloMem) (helloState.publishedBy j)
      (callsOf j) := by
  match j with
  | 0 =>
      exact .cons helloCall_logged (.cons (isCall_logged isCall_makes_ab (by norm_num)) .nil)
  | 1 => exact .cons (isCall_logged isCall_makes_xyz (by norm_num)) .nil
  | _ + 2 => exact .nil

set_option maxRecDepth 8000 in
theorem nextBuffer_lines_helloRun :
    ∃ f' printed, (machine sampleNames).exec new helloRun = some helloState ∧
      formatBuffer helloEnv (fun _ => helloPlaces) 2097152 151 helloFormat = some f' ∧
      f'.lines = helloFormat.lines ++ printed.map (printedLine helloEnv sampleNames) ∧
      printed.length = 3 ∧
      (Merged.proj Prod.fst 0 printed).map Prod.snd <+:
        [(helloCall, helloCompiled), (isCall [97, 98] 7 1500, isCompiled 7)] ∧
      (Merged.proj Prod.fst 1 printed).map Prod.snd <+:
        [(isCall [120, 121, 122] 42 2000000, isCompiled 42)] := by
  have hexec : (machine sampleNames).exec new helloRun = some helloState := rfl
  have hpc : helloState.sink.pc = .buffer 0 := rfl
  have hb : helloState.sink.buffersToWrite[0]? = some helloBuffer := rfl
  have hformatted (j : ℕ) : helloState.formattedFrom j = [] := rfl
  obtain ⟨f', printed, hcall, -, hlines, hlength, hproj⟩ := nextBuffer_lines
    (Machine.reachable_of_exec hexec) epochTime_lawful (fun _ => helloPlaces_workspace)
    helloFormat_ready helloState_published hpc hb helloBuffer_at (fun i hi _ => by omega)
    helloBuffer_fits
  have hfirst := hproj 0
  have hsecond := hproj 1
  rw [hformatted] at hfirst hsecond
  refine ⟨f', printed, hexec, hcall, hlines, hlength.trans ?_, hfirst, hsecond⟩
  rw [show helloBuffer.blocks = helloBlocks from rfl, helloBlocks_lines]
  rfl

end Pipeline

end ConstexprFmtStr
