import Mathlib.Tactic
import ConstexprFmtStr.Log.Decode

/-!
Deferred formatting against direct formatting.

* `InStep`: two runs that differ in their memories only have made the same stores so far.
  `InStep.write`, `InStep.storeCount`, `InStep.print`: each way to print keeps them in step.
* `Overwrites`: what formatting may overwrite. `Undisturbed`: neither the strings nor the entry
  are among it.
* `formator_dump`: what is decoded from a copy of an entry is printed as the arguments themselves
  are. `formator_dump_aliased`: a `%n` that changes a string tells the two apart.
-/

namespace ConstexprFmtStr

open Slice Word

/-! ### Two runs in step -/

/-- Two runs, begun in the memories `mem₀` and `mem₀'`, have the same buffer and count, and have
made the same stores. All of them, and all that can still be printed, are in `S`. -/
structure InStep (S : ℕ → Prop) (mem₀ mem₀' : Mem) (out out' : OutbufArg) : Prop where
  pBufBegin_eq : out'.pBufBegin = out.pBufBegin
  pBuf_eq : out'.pBuf = out.pBuf
  pBufEnd_eq : out'.pBufEnd = out.pBufEnd
  written_eq : out'.written = out.written
  free : ∀ i, out.Free i → S i
  stores : ∃ ss : List (Store UInt8), (∀ st ∈ ss, ∀ i, st.addr ≤ i → i < st.stop → S i) ∧
    out.mem = replay mem₀ ss ∧ out'.mem = replay mem₀' ss

namespace InStep

variable {S : ℕ → Prop} {mem₀ mem₀' : Mem} {out out' : OutbufArg}

/-- Beside `S`, both memories are as they were. -/
lemma mem_eq (h : InStep S mem₀ mem₀' out out') {i : ℕ} (hi : ¬S i) :
    out.mem i = mem₀ i ∧ out'.mem i = mem₀' i := by
  obtain ⟨ss, hin, hmem, hmem'⟩ := h.stores
  have hapart : ∀ st ∈ ss, i < st.addr ∨ st.stop ≤ i := by
    intro st hst
    by_contra hcontra
    exact hi (hin st hst i (by omega) (by omega))
  rw [hmem, hmem']
  exact ⟨replay_frame hapart, replay_frame hapart⟩

lemma not_free (h : InStep S mem₀ mem₀' out out') {i : ℕ} (hi : ¬S i) :
    ¬out.Free i ∧ ¬out'.Free i := by
  have hfree : out'.Free i ↔ out.Free i := by
    rw [OutbufArg.Free, OutbufArg.Free, h.pBuf_eq, h.pBufEnd_eq]
  rw [hfree]
  exact ⟨fun hf => hi (h.free i hf), fun hf => hi (h.free i hf)⟩

/-- One more store. -/
lemma stores_writeAt (h : InStep S mem₀ mem₀' out out') {a : ℕ} {bs : List UInt8}
    (hin : ∀ i, a ≤ i → i < a + bs.length → S i) :
    ∃ ss : List (Store UInt8), (∀ st ∈ ss, ∀ i, st.addr ≤ i → i < st.stop → S i) ∧
      writeAt out.mem a bs = replay mem₀ ss ∧ writeAt out'.mem a bs = replay mem₀' ss := by
  obtain ⟨ss, hss, hmem, hmem'⟩ := h.stores
  refine ⟨ss ++ [⟨a, bs⟩], fun st hst => ?_, ?_, ?_⟩
  · rcases List.mem_append.mp hst with hst | hst
    · exact hss st hst
    · rw [List.mem_singleton.mp hst]
      exact hin
  · rw [replay_append, ← hmem]
    rfl
  · rw [replay_append, ← hmem']
    rfl

/-- Both runs print the same text. -/
lemma write (h : InStep S mem₀ mem₀' out out') (bs : List UInt8) :
    InStep S mem₀ mem₀' (out.write bs) (out'.write bs) := by
  have hroom : out'.room = out.room := by
    rw [OutbufArg.room, OutbufArg.room, h.pBuf_eq, h.pBufEnd_eq]
  have hin : ∀ i, out.pBuf ≤ i → i < out.pBuf + (bs.take out.room).length → S i := by
    intro i hi hi'
    rw [List.length_take] at hi'
    refine h.free i ⟨hi, ?_⟩
    rw [OutbufArg.room] at hi'
    omega
  constructor
  · rw [OutbufArg.pBufBegin_write, OutbufArg.pBufBegin_write, h.pBufBegin_eq]
  · rw [OutbufArg.pBuf_write, OutbufArg.pBuf_write, h.pBuf_eq, hroom]
  · rw [OutbufArg.pBufEnd_write, OutbufArg.pBufEnd_write, h.pBufEnd_eq]
  · rw [OutbufArg.write_eq, OutbufArg.write_eq]
    exact congrArg (· + UInt64.ofNat bs.length) h.written_eq
  · intro i hi
    exact h.free i (OutbufArg.free_of_free_write hi)
  · rw [OutbufArg.write_eq, OutbufArg.write_eq, hroom]
    have hstores := h.stores_writeAt hin
    nth_rewrite 2 [← h.pBuf_eq] at hstores
    exact hstores

/-- Both runs store the same count. -/
lemma storeCount (h : InStep S mem₀ mem₀' out out') (SI : SpecInfo) {arg : Arg}
    (hin : arg.type.toVoidPtr = true →
      ∀ i, arg.address ≤ i → i < arg.address + countSize SI.flags → S i) :
    InStep S mem₀ mem₀' (storeCount SI arg out) (storeCount SI arg out') := by
  rw [ConstexprFmtStr.storeCount, ConstexprFmtStr.storeCount]
  split_ifs with hptr
  · rw [h.written_eq]
    refine ⟨h.pBufBegin_eq, h.pBuf_eq, h.pBufEnd_eq, rfl, h.free, ?_⟩
    exact h.stores_writeAt (by rw [length_leBytes]; exact hin hptr)
  · exact h.write errorText

end InStep

/-! ### One specifier -/

/-- The addresses that a `%n` stores to. -/
def Taken.CountAt (t : Taken Arg) (i : ℕ) : Prop :=
  t.SI.terminal = 'n' ∧ t.arg.type.toVoidPtr = true ∧
    t.arg.address ≤ i ∧ i < t.arg.address + countSize t.SI.flags

section OneSpecifier

variable {S : ℕ → Prop} {mem₀ mem₀' : Mem} {out out' : OutbufArg}

/-- The same specifier with the same argument, but for the place of its string, outside of
`S`. -/
lemma InStep.print_of_sameText (h : InStep S mem₀ mem₀' out out') {t t' : Taken Arg}
    (hSI : t'.SI = t.SI) (hds : t'.ds = t.ds)
    (hsame : SameText t.SI t.prec t.arg mem₀ t'.arg out'.mem)
    (hdirect : ∀ k, t.StringAt mem₀ k → ¬S k) (hdeferred : ∀ k, t'.StringAt out'.mem k → ¬S k)
    (hcount : ∀ k, t.CountAt k → S k) (lib : CLib) (fmt : List Char) :
    InStep S mem₀ mem₀' (t.print lib fmt out) (t'.print lib fmt out') := by
  have hW : t'.W = t.W := by rw [Taken.W, Taken.W, hSI, hds]
  have hP : t'.P = t.P := by rw [Taken.P, Taken.P, hSI, hds]
  rw [Taken.print, Taken.print, hW, hP, hSI]
  by_cases hn : t.SI.terminal = 'n'
  · have harg : t'.arg = t.arg := by
      have hs : t.SI.terminal ≠ 's' := by
        rw [hn]
        decide
      have htype := hsame.type_eq
      have hbytes := hsame.bytes_eq hs
      cases hta : t.arg
      cases hta' : t'.arg
      rw [hta, hta'] at htype hbytes
      simp only [Arg.mk.injEq]
      exact ⟨htype, hbytes⟩
    rw [harg]
    simp only [converterSingle, if_pos hn]
    exact (h.write _).storeCount t.SI fun hptr i hi hi' => hcount i ⟨hn, hptr, hi, hi'⟩
  · -- the string is as it was, in the one memory and in the other
    have hsame₀ : SameText t.SI t.prec t.arg mem₀ t.arg out.mem :=
      .of_frame fun i hi hi' => (h.mem_eq (hdirect i ⟨hi, hi'⟩)).1
    have hprint : converterSingle lib fmt t.SI t.arg t.W t.P out =
        out.write (emitted lib fmt t.SI t.arg t.W t.P out.mem) := by
      refine converterSingle_eq lib fmt hn t.arg t.W t.P fun i hi hi' => ?_
      have hlen := hsame₀.stringLength_eq
      rw [Taken.prec] at hlen
      rw [hlen] at hi'
      exact (h.not_free (hdirect i ⟨hi, hi'⟩)).1
    have hprint' : converterSingle lib fmt t.SI t'.arg t.W t.P out' =
        out'.write (emitted lib fmt t.SI t'.arg t.W t.P out'.mem) := by
      refine converterSingle_eq lib fmt hn t'.arg t.W t.P fun i hi hi' => ?_
      have hat : t'.StringAt out'.mem i := by
        rw [Taken.StringAt, Taken.prec, hW, hP, hSI]
        exact ⟨hi, hi'⟩
      exact (h.not_free (hdeferred i hat)).2
    rw [hprint, hprint', emitted_congr hsame lib fmt, emitted_congr hsame₀ lib fmt]
    exact h.write _

/-- **One specifier**, from an entry and from the arguments. -/
lemma InStep.print (h : InStep S mem₀ mem₀' out out') {t : Taken Arg} {i j : ℕ}
    (hslot : slice mem₀' i t.slotSize = t.slotBytes i j)
    (hstring : slice mem₀' j (t.stringSize mem₀) = t.stringBytes mem₀)
    (hle : i + t.slotSize ≤ j) (hfits : j + t.stringSize mem₀ ≤ 2 ^ 64)
    (hentry : ∀ k, i ≤ k → k < j + t.stringSize mem₀ → ¬S k)
    (hdirect : ∀ k, t.StringAt mem₀ k → ¬S k) (hcount : ∀ k, t.CountAt k → S k) (lib : CLib)
    (fmt : List Char) :
    InStep S mem₀ mem₀' (t.print lib fmt out) ((t.fetch out'.mem i).print lib fmt out') := by
  have hslot' : slice out'.mem i t.slotSize = t.slotBytes i j := by
    rw [← hslot]
    exact slice_congr fun k hk hk' => (h.mem_eq (hentry k hk (by omega))).2
  have hstring' : slice out'.mem j (t.stringSize mem₀) = t.stringBytes mem₀ := by
    rw [← hstring]
    exact slice_congr fun k hk hk' => (h.mem_eq (hentry k (by omega) hk')).2
  obtain ⟨hds, hsame, hat⟩ := fetch_eq hslot' hstring' hle hfits
  have hSI : (t.fetch out'.mem i).SI = t.SI := rfl
  refine h.print_of_sameText hSI hds hsame hdirect (fun k hk => ?_) hcount lib fmt
  obtain ⟨hlo, hhi⟩ := hat k hk
  exact hentry k (by omega) hhi

end OneSpecifier

/-! ### All specifiers -/

/-- **A whole run**, from an entry and from the arguments. -/
lemma InStep.foldl {S : ℕ → Prop} {mem₀ mem₀' : Mem} {ts : List (Taken Arg)}
    {out out' : OutbufArg} {i j : ℕ} (h : InStep S mem₀ mem₀' out out')
    (hentry : EntryAt mem₀ mem₀' i j ts) (hle : i + (ts.map Taken.slotSize).sum ≤ j)
    (hfits : j + (ts.map (Taken.stringSize mem₀)).sum ≤ 2 ^ 64)
    (hout : ∀ k, i ≤ k → k < j + (ts.map (Taken.stringSize mem₀)).sum → ¬S k)
    (hdirect : ∀ t ∈ ts, ∀ k, t.StringAt mem₀ k → ¬S k)
    (hcount : ∀ t ∈ ts, ∀ k, t.CountAt k → S k) (lib : CLib) (fmt : List Char) :
    InStep S mem₀ mem₀' (ts.foldl (fun out t => t.print lib fmt out) out)
      (ts.foldl (formatTaken lib fmt) (out', i)).1 := by
  induction ts generalizing out out' i j with
  | nil => exact h
  | cons t ts ih =>
      obtain ⟨hslot, hstring, hrest⟩ := hentry
      rw [List.map_cons, List.sum_cons] at hle
      rw [List.map_cons, List.sum_cons] at hfits hout
      have hstep := h.print hslot hstring (by omega) (by omega)
        (fun k hk hk' => hout k hk (by omega)) (hdirect t List.mem_cons_self)
        (hcount t List.mem_cons_self) lib fmt
      refine ih hstep hrest (by omega) (by omega) (fun k hk hk' => hout k (by omega) (by omega))
        (fun u hu => hdirect u (List.mem_cons_of_mem _ hu))
        (fun u hu => hcount u (List.mem_cons_of_mem _ hu))

/-- What formatting may overwrite: the free part of the buffer, and what `%n` stores to. -/
def Overwrites (out : OutbufArg) (ts : List (Taken Arg)) (i : ℕ) : Prop :=
  out.Free i ∨ ∃ t ∈ ts, t.CountAt i

/-- Formatting overwrites neither the strings that it reads, nor the entry of `n` bytes at
`input`. -/
structure Undisturbed (mem : Mem) (ts : List (Taken Arg)) (n : ℕ) (out : OutbufArg) (input : ℕ) :
    Prop where
  strings : ∀ t ∈ ts, ∀ i, t.StringAt mem i → ¬Overwrites out ts i
  entry : ∀ i, input ≤ i → i < input + n → ¬Overwrites out ts i
  fits : input + n ≤ 2 ^ 64

/-- Decoding an entry at `input`, with the buffer `outbuf` and the memory around it, and formatting
the arguments themselves with the same buffer, in the memory `mem`: the same pointers, the same
count and the same stores. -/
def PrintsAlike (lib : CLib) (fmt : List Char) (SIs : List SpecInfo) (args : List Arg) (mem : Mem)
    (ts : List (Taken Arg)) (outbuf : OutbufArg) (input : ℕ) : Prop :=
  ∃ direct deferred, converterImpl lib fmt SIs args { outbuf with mem := mem } = some direct ∧
    formator lib fmt SIs (args.map Arg.type) outbuf input = some deferred ∧
    InStep (Overwrites outbuf ts) mem outbuf.mem direct deferred

lemma printsAlike_of_entryAt {SIs : List SpecInfo} (hne : SIs ≠ []) {args : List Arg}
    {ts : List (Taken Arg)} (hts : takeAll SIs args = some ts) {mem : Mem} {outbuf : OutbufArg}
    {input : ℕ}
    (hentry : EntryAt mem outbuf.mem input (input + (ts.map Taken.slotSize).sum) ts)
    (hquiet : Undisturbed mem ts ((ts.map Taken.slotSize).sum + (strSizes mem ts).sum) outbuf
      input) (lib : CLib) (fmt : List Char) :
    PrintsAlike lib fmt SIs args mem ts outbuf input := by
  obtain ⟨hstrings, hout, hfits⟩ := hquiet
  rw [sum_strSizes, ← Nat.add_assoc] at hout hfits
  have hstart : InStep (Overwrites outbuf ts) mem outbuf.mem { outbuf with mem := mem } outbuf :=
    ⟨rfl, rfl, rfl, rfl, fun i hi => .inl hi, [], by simp, rfl, rfl⟩
  have hrun := hstart.foldl hentry le_rfl hfits hout hstrings
    (fun t ht i hi => .inr ⟨t, ht, hi⟩) lib fmt
  refine ⟨_, _, ?_, ?_, hrun.write (literalText fmt (SIs.getLast hne))⟩
  · rw [converterImpl_eq lib fmt hne, hts]
    rfl
  · rw [formator_eq lib fmt hne, hts]
    rfl

/-- What deferred formatting of the arguments `args` should do. The sizes are computed and the
arguments dumped at `s.storage`; wherever the bytes are copied to, decoding them prints what
formatting the arguments prints, as long as the strings are not among the bytes dumped to and
formatting disturbs nothing that is read. -/
def DefersFormatting (SIs : List SpecInfo) (args : List Arg) (s : Storage) : Prop :=
  ∃ ts kArgsSize arr s', takeAll SIs args = some ts ∧
    argsSize SIs (args.map Arg.type) = some kArgsSize ∧ strSizeArray s.mem SIs args = some arr ∧
    dump kArgsSize arr SIs args s = some s' ∧
    ((∀ t ∈ ts, ∀ i, t.arg.address ≤ i → i < t.arg.address + t.stringSize s.mem →
        i < s.storage ∨ s.storage + (kArgsSize + arr.sum) ≤ i) →
      ∀ lib fmt outbuf input,
        slice outbuf.mem input (kArgsSize + arr.sum) =
          slice s'.mem s.storage (kArgsSize + arr.sum) →
        Undisturbed s.mem ts (kArgsSize + arr.sum) outbuf input →
        PrintsAlike lib fmt SIs args s.mem ts outbuf input)

lemma defersFormatting_of_isPack {SIs : List SpecInfo} (hpack : IsPack SIs) {args : List Arg}
    (hargs : countArgsRequired SIs ≤ args.length) (s : Storage) : DefersFormatting SIs args s := by
  obtain ⟨ts, hts, hkArgs⟩ := takeAll_of_isPack hpack hargs
  refine ⟨ts, _, _, _, hts, hkArgs, strSizeArray_eq hpack hts s.mem, dump_eq hpack.ne_nil hts _ _,
    fun hprivate lib fmt outbuf input hcopy hquiet => ?_⟩
  have hentry := entryAt_afterDump (s := s) (List.append_nil (strSizes s.mem ts)).symm
    fun t ht i hi hi' => ⟨rfl, hprivate t ht i hi hi'⟩
  rw [slice_add, slice_add _ s.storage, sum_strSizes] at hcopy
  obtain ⟨hslots, hstrings⟩ := List.append_inj hcopy (by simp)
  have hmoved : EntryAt s.mem outbuf.mem (input + 0) (input + (ts.map Taken.slotSize).sum) ts :=
    EntryAt.relocate (k := s.storage) hentry hslots hstrings
  exact printsAlike_of_entryAt hpack.ne_nil hts hmoved hquiet lib fmt

/-- **Deferred formatting prints what direct formatting prints**, for every call that compiles,
wherever the entry is copied to. -/
theorem formator_dump {f : List Char} (hf : nul ∉ f) (hfit : ∀ p ∈ scan f, p.FitsInt)
    {SIs : List SpecInfo} (hSIs : specInfos (f ++ [nul]) = .ok SIs) {args : List Arg}
    (hargs : countArgsRequired SIs ≤ args.length) (s : Storage) :
    DefersFormatting SIs args s :=
  defersFormatting_of_isPack (isPack_specInfos hf hfit hSIs) hargs s

/-- The arguments of `"%s:%*d %s"` dumped at 64, and the entry copied to 512 in a memory that has
nothing else: it is printed as the arguments are. -/
theorem formator_dump_sample :
    ∃ SIs ts s', specInfos ("%s:%*d %s".toList ++ [nul]) = .ok SIs ∧
      takeAll SIs twoStringArgs = some ts ∧
      dump 24 [3, 4] SIs twoStringArgs { storage := 64, storage2 := 0, mem := twoStrings } =
        some s' ∧
      PrintsAlike CLib.ascii ("%s:%*d %s".toList ++ [nul]) SIs twoStringArgs twoStrings ts
        (.new (writeAt (fun _ => 0) 512 (slice s'.mem 64 31)) 8192 100) 512 := by
  obtain ⟨ts, kArgsSize, arr, s', hts, hkArgs, harr, hdump, hprints⟩ :=
    formator_dump (f := "%s:%*d %s".toList) (by decide) (by decide) rfl
      (show countArgsRequired _ ≤ twoStringArgs.length by decide)
      { storage := 64, storage2 := 0, mem := twoStrings }
  obtain rfl : 24 = kArgsSize := Option.some.inj hkArgs
  obtain rfl : [3, 4] = arr := Option.some.inj harr
  have hcopy : slice (writeAt (fun _ => 0) 512 (slice s'.mem 64 31)) 512 31 =
      slice s'.mem 64 31 := by
    have hself := slice_writeAt_self (fun _ => 0) 512 (slice s'.mem 64 31)
    rwa [length_slice] at hself
  have htaken : ∀ t ∈ ts, t.SI.terminal ≠ 'n' ∧
      t.arg.address + stringLength t.SI t.arg t.prec twoStrings ≤ 8192 ∧
      ∀ i, t.arg.address ≤ i → i < t.arg.address + t.stringSize twoStrings → i < 64 ∨ 95 ≤ i := by
    obtain rfl := Option.some.inj hts
    decide
  -- there is no `%n`, so only the buffer is overwritten
  have hover : ∀ i,
      Overwrites (.new (writeAt (fun _ => 0) 512 (slice s'.mem 64 31)) 8192 100) ts i →
        8192 ≤ i := by
    rintro i (hfree | ⟨t, ht, hcount⟩)
    · exact hfree.1
    · exact absurd hcount.1 (htaken t ht).1
  refine ⟨_, ts, s', rfl, hts, hdump, hprints (fun t ht => (htaken t ht).2.2) _ _ _ _ hcopy
    ⟨fun t ht i hat hi => ?_, fun i _ hlt hi => ?_, by decide⟩⟩
  · exact absurd (hat.2.trans_le (htaken t ht).2.1) (not_lt.mpr (hover i hi))
  · exact absurd (hlt.trans (by decide)) (not_lt.mpr (hover i hi))

/-- The address `a` for a `%n`. -/
def countArg (a : ℕ) : Arg where
  type := .ptr false
  bytes := (strArg a).bytes
  length_bytes := (strArg a).length_bytes

/-- `"%n%s"` with an object, "A", for the count and for the string: direct formatting prints what
the count has left of the string, the entry still has "A". -/
theorem formator_dump_aliased :
    ∃ SIs args s s' direct deferred, specInfos ("%n%s".toList ++ [nul]) = .ok SIs ∧
      args = [countArg 4096, strArg 4096] ∧
      s = { storage := 64, storage2 := 0, mem := fun i => if i = 4096 then 65 else 0 } ∧
      argsSize SIs (args.map Arg.type) = some 16 ∧ strSizeArray s.mem SIs args = some [2] ∧
      dump 16 [2] SIs args s = some s' ∧
      converterImpl CLib.ascii [nul] SIs args (.new s'.mem 8192 100) = some direct ∧
      formator CLib.ascii [nul] SIs (args.map Arg.type) (.new s'.mem 8192 100) 64 =
        some deferred ∧
      direct.written = 0 ∧ deferred.written = 1 :=
  ⟨_, _, _, _, _, _, rfl, rfl, rfl, rfl, rfl, rfl, rfl, rfl, rfl, rfl⟩

end ConstexprFmtStr
