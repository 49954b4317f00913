import Mathlib.Tactic
import ConstexprFmtStr.Format.Taken
import ConstexprFmtStr.Lib.Stores
import ConstexprFmtStr.Runtime.SinkLogger

/-!
Log entries (`tz_logger.h`).

* `getNArgsSize`, `getStrSizeArray`: the sizes of an entry. Sizes of objects are natural numbers.
* `Storage`, `storeArg`, `storeArgs`: the arguments and their strings stored into an entry, with
  the stores kept.
* `fetchArg`, `formator`: the arguments read back out of an entry, and printed.
* `argsSize`, `strSizeArray`, `dump`: the members of `LogEntryHandler`.
* `tzLog`: the macro `TZ_LOG`.
-/

namespace ConstexprFmtStr

open Slice Word

/-! ### Sizes -/

/-- `getNArgsSize<N, Ts...>()`. -/
def getNArgsSize : ℕ → List CType → ℕ
  | N + 1, T :: Ts => T.size + getNArgsSize N Ts
  | _, _ => 0

/-- `getStrsNum<SIs...>()`. -/
def getStrsNum (SIs : List SpecInfo) : ℕ := SIs.countP (·.terminal = 's')

/-- `getSizeForTerminal_s<IDX, SI>(arr, arg)`: the size it stores. -/
def sizeForTerminalS (mem : Mem) (SI : SpecInfo) (arg : Arg) : ℕ :=
  if arg.type = .nullptr then 0
  else if SI.flags.longint then
    if arg.type.toWcharPtr then (wcslen mem arg.address + 1) * sizeofWchar else 0
  else if arg.type.toCharPtr then strlen mem arg.address + 1
  else 0

/-- `getStrSizeArray<IDX, SIs...>(arr, args...)`, with `getStrSize`, `getStrSize_D` and
`getStrSize_D_D`; `none` if there are too few arguments. -/
def getStrSizeArray (mem : Mem) :
    ℕ → List SpecInfo → List Arg → List ℕ → Option (List ℕ)
  | _, [], _, _ => none
  | _, [_], _, arr => some arr
  | IDX, SI :: SIs, args, arr =>
      if SI.width = dynamicWidth ∧ SI.prec = dynamicPrecision then
        match args with
        | _ :: _ :: arg :: rest =>
            if SI.terminal = 's' then
              getStrSizeArray mem (IDX + 1) SIs rest (arr.set IDX (sizeForTerminalS mem SI arg))
            else getStrSizeArray mem IDX SIs rest arr
        | _ => none
      else if SI.width = dynamicWidth ∨ SI.prec = dynamicPrecision then
        match args with
        | _ :: arg :: rest =>
            if SI.terminal = 's' then
              getStrSizeArray mem (IDX + 1) SIs rest (arr.set IDX (sizeForTerminalS mem SI arg))
            else getStrSizeArray mem IDX SIs rest arr
        | _ => none
      else
        match args with
        | arg :: rest =>
            if SI.terminal = 's' then
              getStrSizeArray mem (IDX + 1) SIs rest (arr.set IDX (sizeForTerminalS mem SI arg))
            else getStrSizeArray mem IDX SIs rest arr
        | [] => none

/-! ### Storing -/

/-- What a store is for. -/
inductive Part
  /-- the `OneLogEntry`, or the size behind an illegal one -/
  | header
  /-- an argument, or the offset of its string -/
  | slot
  /-- the string of an `s`, with its index in the array of sizes -/
  | string (IDX : ℕ)
  deriving DecidableEq

/-- The two cursors `*storage` and `*storage2`, the memory, and the stores made so far. -/
structure Storage where
  storage : ℕ
  storage2 : ℕ
  mem : Mem
  stores : List (Part × Store UInt8) := []

/-- A store of the bytes `bs` at the address `a`. -/
def Storage.put (s : Storage) (p : Part) (a : ℕ) (bs : List UInt8) : Storage :=
  { s with
    mem := writeAt s.mem a bs
    stores := s.stores ++ [(p, ⟨a, bs⟩)] }

/-- `*reinterpret_cast<T*>(*storage) = arg; *storage += sizeof(T);` -/
def Storage.putSlot (s : Storage) (bs : List UInt8) : Storage :=
  { s.put .slot s.storage bs with storage := s.storage + bs.length }

/-- The string at `a`: a copy with a '\0' of `nulSize` bytes at `*storage2`, and the offset from
its slot to it. -/
def Storage.putString (s : Storage) (IDX : ℕ) (arr : List ℕ) (nulSize a : ℕ) : Storage :=
  let size := arr.getD IDX 0 - nulSize
  let s := s.put (.string IDX) s.storage2 (slice s.mem a size)
  let s := s.put (.string IDX) (s.storage2 + size) (leBytes nulSize 0)
  let s := s.putSlot (leBytes 8 (s.storage2 - s.storage))
  { s with storage2 := s.storage2 + arr.getD IDX 0 }

/-- `storeArg<IDX, SI>(storage, storage2, arr, arg)`. -/
def storeArg (IDX : ℕ) (SI : SpecInfo) (arr : List ℕ) (arg : Arg) (s : Storage) : Storage :=
  if SI.terminal = 's' then
    if arg.type = .nullptr then s.putSlot (leBytes 8 0)
    else if SI.flags.longint then
      if arg.type.toWcharPtr then s.putString IDX arr sizeofWchar arg.address
      else s.putSlot arg.bytes
    else if arg.type.toCharPtr then s.putString IDX arr 1 arg.address
    else s.putSlot arg.bytes
  else s.putSlot arg.bytes

/-- `storeArgs<IDX, SIs...>(storage, storage2, arr, args...)`, with `store_A_Args`,
`store_D_A_Args` and `store_D_D_A_Args`; `none` if there are too few arguments. -/
def storeArgs (arr : List ℕ) : ℕ → List SpecInfo → List Arg → Storage → Option Storage
  | _, [], _, _ => none
  | _, [_], _, s => some s
  | IDX, SI :: SIs, args, s =>
      if SI.width = dynamicWidth ∧ SI.prec = dynamicPrecision then
        match args with
        | d₁ :: d₂ :: arg :: rest =>
            storeArgs arr (if SI.terminal = 's' then IDX + 1 else IDX) SIs rest
              (storeArg IDX SI arr arg ((s.putSlot d₁.bytes).putSlot d₂.bytes))
        | _ => none
      else if SI.width = dynamicWidth ∨ SI.prec = dynamicPrecision then
        match args with
        | d :: arg :: rest =>
            storeArgs arr (if SI.terminal = 's' then IDX + 1 else IDX) SIs rest
              (storeArg IDX SI arr arg (s.putSlot d.bytes))
        | _ => none
      else
        match args with
        | arg :: rest =>
            storeArgs arr (if SI.terminal = 's' then IDX + 1 else IDX) SIs rest
              (storeArg IDX SI arr arg s)
        | [] => none

/-! ### Reading back -/

/-- The object of type `T` at `input`. -/
def loadArg (mem : Mem) (T : CType) (input : ℕ) : Arg where
  type := T
  bytes := slice mem input T.size
  length_bytes := length_slice _ _ _

/-- The types whose values `_ARG` takes for offsets. -/
def isOffset (SI : SpecInfo) (T : CType) : Bool :=
  SI.terminal == 's' && T != .nullptr && (T.toCharPtr || T.toWcharPtr)

lemma size_of_isOffset {SI : SpecInfo} {T : CType} (h : isOffset SI T = true) : T.size = 8 := by
  cases T <;> simp [isOffset, CType.toCharPtr, CType.toWcharPtr] at h <;> rfl

/-- `_ARG<SI, T>(input)`. -/
def fetchArg (mem : Mem) (SI : SpecInfo) (T : CType) (input : ℕ) : Arg :=
  if h : isOffset SI T = true then
    { type := T
      bytes := leBytes 8 (u64Add input (leValue (slice mem input T.size)))
      length_bytes := by rw [length_leBytes, size_of_isOffset h] }
  else loadArg mem T input

/-- `formator<IDX, FmtStr, TUPLE, SIs...>(outbuf, input)`, with `formator_A_args`,
`formator_D_A_args` and `formator_D_D_A_args`; the types are those of `TUPLE` from `IDX` on. -/
def formator (lib : CLib) (fmt : List Char) :
    List SpecInfo → List CType → OutbufArg → ℕ → Option OutbufArg
  | [], _, _, _ => none
  | [SI], _, outbuf, _ => some (outbuf.write (literalText fmt SI))
  | SI :: SIs, Ts, outbuf, input =>
      if SI.width = dynamicWidth ∧ SI.prec = dynamicPrecision then
        match Ts with
        | D₁ :: D₂ :: T :: Ts =>
            let d₁ := loadArg outbuf.mem D₁ input
            let d₂ := loadArg outbuf.mem D₂ (input + D₁.size)
            let val := fetchArg outbuf.mem SI T (input + D₁.size + D₂.size)
            formator lib fmt SIs Ts
              (if SI.wFirst then
                converterSingle lib fmt SI val (formattedWidth d₁) (formattedPrec d₂) outbuf
              else converterSingle lib fmt SI val (formattedWidth d₂) (formattedPrec d₁) outbuf)
              (input + D₁.size + D₂.size + T.size)
        | _ => none
      else if SI.width = dynamicWidth ∨ SI.prec = dynamicPrecision then
        match Ts with
        | D :: T :: Ts =>
            let d := loadArg outbuf.mem D input
            let val := fetchArg outbuf.mem SI T (input + D.size)
            formator lib fmt SIs Ts
              (if SI.width = dynamicWidth then
                converterSingle lib fmt SI val (formattedWidth d) (-1) outbuf
              else converterSingle lib fmt SI val 0 (formattedPrec d) outbuf)
              (input + D.size + T.size)
        | _ => none
      else
        match Ts with
        | T :: Ts =>
            let val := fetchArg outbuf.mem SI T input
            formator lib fmt SIs Ts (converterSingle lib fmt SI val 0 (-1) outbuf)
              (input + T.size)
        | [] => none

/-! ### `LogEntryHandler` -/

/-- `argsSize(std::tuple<Ts...>)`, with its `static_assert`. -/
def argsSize (SIs : List SpecInfo) (Ts : List CType) : Option ℕ :=
  if countArgsRequired SIs ≤ Ts.length then some (getNArgsSize (countArgsRequired SIs) Ts)
  else none

/-- `strSizeArray(args...)`. -/
def strSizeArray (mem : Mem) (SIs : List SpecInfo) (args : List Arg) : Option (List ℕ) :=
  let arr := List.replicate (getStrsNum SIs) 0
  if 0 < getStrsNum SIs then getStrSizeArray mem 0 SIs args arr else some arr

/-- `dump<ARGS_SIZE>(storage, arr, args...)`; `*storage` is the end of the strings. -/
def dump (ARGS_SIZE : ℕ) (arr : List ℕ) (SIs : List SpecInfo) (args : List Arg) (s : Storage) :
    Option Storage :=
  (storeArgs arr 0 SIs args { s with storage2 := s.storage + ARGS_SIZE }).map fun s =>
    { s with storage := s.storage2 }

/-! ### `TZ_LOG` -/

/-- `FORMAT_ARGS_MAXIMUM_SIZE`. -/
def formatArgsMaximumSize : ℕ := stagingBufferSize / 2

/-- `LogEntryStatus::NORMAL` and `LogEntryStatus::ILLEGAL_ARGS_SIZE`. -/
inductive LogEntryStatus
  | normal
  | illegalArgsSize
  deriving DecidableEq

/-- The underlying `uint8_t`. -/
def LogEntryStatus.toByte : LogEntryStatus → UInt8
  | normal => 0
  | illegalArgsSize => 1

/-- The fields of the `OneLogEntry` at `pos`. -/
def Storage.putHeader (s : Storage) (pos fmtId size : ℕ) (status : LogEntryStatus)
    (timestamp : ℕ) : Storage :=
  (((s.put .header pos (leBytes 8 fmtId)).put .header (pos + 8) (leBytes 4 size)).put
    .header (pos + 12) [status.toByte]).put .header (pos + 16) (leBytes 8 timestamp)

/-- A call of `TZ_LOG`: the bytes that it reserves at `pos` and those that it publishes, the
cursor at the end, and the memory with the stores made. -/
structure LogCall where
  reserved : ℕ
  finished : ℕ
  writePos : ℕ
  out : Storage

/-- `TZ_LOG(severity, format, args...)` of a format with the specifiers `SIs`, where
`reserveAlloc` returns `pos`; `none` where a `static_assert` fails. It compiles if the casts of its
`formator` do, which is `castsCompile`. -/
def tzLog (mem : Mem) (SIs : List SpecInfo) (args : List Arg) (fmtInfo timestamp pos : ℕ) :
    Option LogCall := do
  let kArgsSize ← argsSize SIs (args.map Arg.type)
  let strSizeArr ← strSizeArray mem SIs args
  let bufSize := strSizeArr.foldl (· + ·) (kArgsSize + sizeofOneLogEntry)
  -- `new(writePos) OneLogEntry()`
  let s : Storage := { storage := pos, storage2 := 0, mem := mem }
  let s := s.put .header pos (List.replicate sizeofOneLogEntry 0)
  let s := { s with storage := pos + sizeofOneLogEntry }
  if bufSize ≤ formatArgsMaximumSize then do
    let s ← dump kArgsSize strSizeArr SIs args s
    return {
      reserved := bufSize
      finished := bufSize
      writePos := s.storage
      out := s.putHeader pos fmtInfo bufSize .normal timestamp }
  else
    let size := sizeofOneLogEntry + 8
    let s := s.put .header s.storage (leBytes 8 bufSize)
    return {
      reserved := size
      finished := size
      writePos := s.storage + 8
      out := s.putHeader pos fmtInfo size .illegalArgsSize timestamp }

end ConstexprFmtStr
