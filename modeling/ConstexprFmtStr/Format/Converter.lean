import Mathlib.Tactic
import ConstexprFmtStr.Format.Args
import ConstexprFmtStr.Format.Digits

/-!
The converters of `constexpr_fmt.h`, which print at run time.

* `convertChar`, `convertString`, `convertInteger`, `convertFloat`: the parts of
  `converter_single` that turn an argument into characters, a `Field`; `none` where it prints
  `(ER)` and returns.
* `writeField`: its last part, which pads and prints a field.
* `converterSingle`, `converterImpl`: one specifier, and all of them with their arguments.
-/

namespace ConstexprFmtStr

open Slice Word

/-! ### The size constants -/

/-- `MAXFRACT_LE`, for GNU compilers. -/
def maxFractLE : ℕ := 4933

/-- `STACK_MEMORY_SIZE`. -/
def stackMemorySize : ℕ := 1000

/-- `maxFractSize<flags, term>()`. -/
def maxFractSize (flags : Flags) (term : Char) : ℤ :=
  if term = 'F' ∨ term = 'f' then 60
  else if term = 'e' ∨ term = 'E' then if flags.longdbl then maxFractLE else 309
  else 20

/-- `fitBufferSize<flags, term>()`, for the floating point terminals. -/
def fitBufferSize (flags : Flags) (term : Char) : ℕ :=
  if term = 'F' ∨ term = 'f' then if flags.longdbl then 4933 + 60 + 4 else 309 + 60 + 4
  else if term = 'e' ∨ term = 'E' then if flags.longdbl then maxFractLE + 16 else 309 + 16
  else if term = 'g' ∨ term = 'G' then
    if flags.longdbl then max (4933 + 60 + 4) (maxFractLE + 16) else max (309 + 60 + 4) (309 + 16)
  else 20 + 16

/-! ### Terminals -/

/-- `d`, `i`, `u`, `o`, `x` or `X`. -/
def isIntTerminal (t : Char) : Bool :=
  t == 'i' || t == 'd' || t == 'x' || t == 'X' || t == 'o' || t == 'u'

/-- `f`, `F`, `a`, `A`, `e`, `E`, `g` or `G`. -/
def isFloatTerminal (t : Char) : Bool :=
  t == 'F' || t == 'f' || t == 'a' || t == 'A' || t == 'e' || t == 'E' || t == 'g' || t == 'G'

/-- The terminals that print a sign. -/
def isSignedTerminal (t : Char) : Bool := isFloatTerminal t || t == 'i' || t == 'd'

/-! ### Characters to print -/

/-- Where `cp` points: to characters in `buf` or in a literal, or into the memory. -/
inductive CharSrc
  | buf (bs : List UInt8)
  | ptr (a : ℕ)

/-- The first `size` characters. -/
def CharSrc.read (src : CharSrc) (mem : Mem) (size : ℕ) : List UInt8 :=
  match src with
  | buf bs => bs.take size
  | ptr a => slice mem a size

/-- How many of the first `n` characters stand before the '\0'. -/
def CharSrc.nulIndex (src : CharSrc) (mem : Mem) (n : ℕ) : ℕ :=
  match src with
  | buf bs => ConstexprFmtStr.nulIndex (fun i => bs.getD i 0) n 0
  | ptr a => ConstexprFmtStr.nulIndex mem n a

/-- The locals of `converter_single` when it starts to pad. -/
structure Field where
  src : CharSrc
  size : ℕ
  P : ℤ
  fpprec : ℤ := 0
  gtoe : Bool := false
  flags : Flags
  sign : Char

/-! ### `c` -/

/-- `SI.terminal_ == 'c'`. -/
def convertChar (lib : CLib) (SI : SpecInfo) (arg : Arg) : Option (List UInt8) :=
  match arg.type with
  | .int t =>
      let v := Arg.intValue t arg.bytes
      if SI.flags.longint then lib.c32rtomb (wrapU 32 v)
      else some [UInt8.ofNat (wrapU 8 (wrapS 32 v))]
  | .flt k =>
      if SI.flags.longint then lib.c32rtomb (lib.floatToChar32 k arg.bytes)
      else some [UInt8.ofNat (wrapU 8 (lib.floatToInt k arg.bytes))]
  | _ => none

/-! ### `s` -/

/-- `SI.terminal_ == 's'`: `cp` and its size. -/
def convertString (lib : CLib) (SI : SpecInfo) (arg : Arg) (P : ℤ) (mem : Mem) :
    Option (CharSrc × ℕ) := do
  let src ←
    if arg.type = .nullptr then some (.buf (charBytes "(null)".toList))
    else if SI.flags.longint then
      if arg.type.toWcharPtr then
        let size := if P < 0 then stackMemorySize else min P.toNat stackMemorySize
        (lib.wcsrtombs (wideString mem arg.address) size).map .buf
      else none
    else if arg.type.toCharPtr then some (.ptr arg.address)
    else none
  return (src, src.nulIndex mem (if 0 ≤ P then P.toNat else 2 ^ 64))

/-! ### `d`, `i`, `u`, `o`, `x`, `X` and `p` -/

/-- The digits and the sign of an integral argument of value `v`, `none` for a terminal that
takes no integer. -/
def integerText (SI : SpecInfo) (v : ℤ) (sign : Char) : Option (List Char × Char) :=
  if SI.terminal = 'i' ∨ SI.terminal = 'd' then
    let ujval := SARG SI.flags v
    if wrapS 64 ujval < 0 then some (formatDec (u64Sub 0 ujval), '-')
    else some (formatDec ujval, sign)
  else if SI.terminal = 'u' then some (formatDec (UARG SI.flags v), sign)
  else if SI.terminal = 'o' then
    let cp := formatOct (UARG SI.flags v)
    some (if SI.flags.alt ∧ cp.head? ≠ some '0' then '0' :: cp else cp, sign)
  else if SI.terminal = 'x' ∨ SI.terminal = 'X' then
    let cp := formatHex SI.terminal (UARG SI.flags v)
    some (if SI.flags.alt ∧ cp.head? ≠ some '0' then '0' :: SI.terminal :: cp else cp, sign)
  else none

/-- The sixteen digits of an address. -/
def pointerText (a : ℕ) : List Char :=
  let digits := formatHex 'X' a
  List.replicate (16 - digits.length) '0' ++ digits

/-- The field of an integer conversion. -/
def convertInteger (SI : SpecInfo) (arg : Arg) (P : ℤ) (flags : Flags) (sign : Char) :
    Option Field :=
  if SI.terminal = 'p' ∧ arg.type.toVoidPtr then
    some {
      src := .buf (charBytes (pointerText arg.address))
      size := 16
      P := 0
      flags := { flags with zeropad := false }
      sign := sign }
  else
    match arg.type with
    | .int t => do
        let (cp, sign) ← integerText SI (Arg.intValue t arg.bytes) sign
        return {
          src := .buf (charBytes cp)
          size := cp.length
          P := P
          -- "if a precision is specified (P >= 0), the 0 flag will be ignored"
          flags := if 0 ≤ P then { flags with zeropad := false } else flags
          sign := sign }
    | _ => none

/-! ### Floating point -/

/-- Where the loop that searches for the exponent stops: the last `exp` before the last two
characters. -/
def expIndex (exp : Char) (text : List Char) : ℕ :=
  let front := text.take (text.length - 2)
  front.length - 1 - front.reverse.findIdx (· == exp)

/-- `formatDuble<TM, FGS>(buf, arg, prec)`; nothing if the library reports an error. -/
def formatDuble (lib : CLib) (TM : Char) (flags : Flags) (bufSize : ℕ) (k : FloatKind)
    (arg : List UInt8) (prec : ℤ) : List Char :=
  let toChars format := lib.toChars k arg flags.longdbl format prec bufSize
  if TM = 'f' ∨ TM = 'F' then
    match toChars .fixed with
    | some text => if flags.alt ∧ prec = 0 then text ++ ['.'] else text
    | none => []
  else if TM = 'e' ∨ TM = 'E' then
    match toChars .scientific with
    | some text =>
        if flags.alt ∧ prec = 0 then
          text.take (expIndex 'e' text) ++ '.' :: text.drop (expIndex 'e' text)
        else text
    | none => []
  else if TM = 'a' ∨ TM = 'A' then
    match toChars .hex with
    | some text =>
        if flags.alt ∧ text[1]? ≠ some '.' then text.take 1 ++ '.' :: text.drop 1 else text
    | none => []
  else (toChars .general).getD []

/-- The precision that `formatDuble` is given, and the zeros to print after its digits. -/
def clipPrec (P maxFract : ℤ) : ℤ × ℤ := if maxFract < P then (maxFract, P - maxFract) else (P, 0)

/-- The digits of a finite number that is not negative: the text, `fpprec` and `gtoe`. -/
def floatText (lib : CLib) (SI : SpecInfo) (k : FloatKind) (isZero : Bool) (arg : List UInt8)
    (P : ℤ) : List Char × ℤ × Bool :=
  let formatDuble TM P :=
    formatDuble lib TM SI.flags (fitBufferSize SI.flags SI.terminal) k arg P
  if SI.terminal ≠ 'g' ∧ SI.terminal ≠ 'G' then
    let (P, fpprec) := clipPrec P (maxFractSize SI.flags SI.terminal)
    (formatDuble SI.terminal P, fpprec, false)
  else if SI.flags.alt then
    let P := if P = -1 then 6 else if P = 0 then 1 else P
    let exp := if isZero then 0 else lib.floorLog10 k arg
    if exp < P ∧ -4 ≤ exp then
      let (P, fpprec) := clipPrec (P - (exp + 1)) (maxFractSize SI.flags 'f')
      (formatDuble (if SI.terminal = 'g' then 'f' else 'F') P, fpprec, false)
    else
      let (P, fpprec) := clipPrec (P - 1) (maxFractSize SI.flags 'e')
      (formatDuble (if SI.terminal = 'g' then 'e' else 'E') P, fpprec, true)
  else (formatDuble SI.terminal P, 0, false)

/-- The field of a floating point conversion. -/
def convertFloat (lib : CLib) (SI : SpecInfo) (arg : Arg) (P : ℤ) (flags : Flags) (sign : Char) :
    Option Field :=
  let upper := SI.terminal = 'E' ∨ SI.terminal = 'G' ∨ SI.terminal = 'F' ∨ SI.terminal = 'A'
  match arg.type with
  | .flt k =>
      let negative := lib.isNegative k arg.bytes
      match lib.fpclassify k arg.bytes with
      | .infinite =>
          some {
            src := .buf (charBytes (if upper then ['I', 'N', 'F'] else ['i', 'n', 'f']))
            size := 3
            P := P
            flags := { flags with zeropad := false }
            sign := if negative then '-' else sign }
      | .nan =>
          some {
            src := .buf (charBytes (if upper then ['N', 'A', 'N'] else ['n', 'a', 'n']))
            size := 3
            P := P
            flags := { flags with zeropad := false }
            sign := sign }
      | .other => none
      | c =>
          let value := if negative then lib.abs k arg.bytes else arg.bytes
          let (text, fpprec, gtoe) := floatText lib SI k (c = .zero) value P
          some {
            src := .buf (charBytes text)
            size := text.length
            P := P
            fpprec := fpprec
            gtoe := gtoe
            flags := flags
            sign := if negative then '-' else sign }
  | _ => none

/-! ### Padding -/

/-- `realsz`, with the sign. -/
def Field.realsz (f : Field) (SI : SpecInfo) : ℤ :=
  let size := wrapS 32 f.size
  let realsz :=
    if isIntTerminal SI.terminal then if size < f.P then f.P else size
    else if isFloatTerminal SI.terminal then wrapS 32 (f.size + f.fpprec)
    else size
  if isSignedTerminal SI.terminal ∧ f.sign ≠ nul then realsz + 1 else realsz

/-- The character that the exponent of a terminal starts with. -/
def expChar (t : Char) : Char :=
  if t = 'e' ∨ t = 'E' then 'e' else if t = 'a' ∨ t = 'A' then 'p' else 'e'

/-- Does the code split the exponent off, to print zeros before it? -/
def Field.splitsExp (f : Field) (SI : SpecInfo) : Bool :=
  0 < f.fpprec ∧
    (SI.terminal = 'e' ∨ SI.terminal = 'E' ∨ SI.terminal = 'a' ∨ SI.terminal = 'A' ∨
      (SI.terminal = 'g' ∨ SI.terminal = 'G') ∧ f.gtoe)

/-- The characters `cp`, and the exponent if it is split off. -/
def Field.texts (f : Field) (SI : SpecInfo) (mem : Mem) : List UInt8 × List UInt8 :=
  let text := f.src.read mem f.size
  if f.splitsExp SI then
    let i := expIndex (expChar SI.terminal) (text.map fun b => Char.ofNat b.toNat)
    (text.take i, text.drop i)
  else (text, [])

/-- The end of `converter_single`, from "All reasonable formats wind up here" on. -/
def writeField (SI : SpecInfo) (W : ℤ) (f : Field) (out : OutbufArg) : OutbufArg :=
  let pad := W - f.realsz SI
  let blank := ' '.toUInt8
  let zero := '0'.toUInt8
  -- right-adjusting blank padding
  let out :=
    if ¬f.flags.zeropad ∧ ¬f.flags.ladjust then out.writePaddings blank pad else out
  -- prefix
  let out :=
    if isSignedTerminal SI.terminal ∧ f.sign ≠ nul then out.writeChar f.sign.toUInt8 else out
  -- right-adjusting zero padding
  let out := if f.flags.zeropad ∧ ¬f.flags.ladjust then out.writePaddings zero pad else out
  -- leading zeroes from decimal precision
  let out :=
    if isIntTerminal SI.terminal then
      out.writePaddings zero (wrapS 32 (u64Sub (wrapU 64 f.P) f.size))
    else out
  -- the string or number proper
  let (text, expstr) := f.texts SI out.mem
  let out := out.write text
  -- trailing floating point zeroes
  let out := if isFloatTerminal SI.terminal then out.writePaddings zero f.fpprec else out
  let out := if f.splitsExp SI then out.write expstr else out
  -- left-adjusting padding (always blank)
  if f.flags.ladjust then out.writePaddings blank pad else out

/-! ### One specifier -/

/-- What is written to `buf` for an error. -/
def errorText : List UInt8 := charBytes ['(', 'E', 'R', ')']

/-- The literal text before a specifier: `fmt[begin_, end_)`. -/
def literalText (fmt : List Char) (SI : SpecInfo) : List UInt8 :=
  charBytes ((fmt.drop SI.begin_).take (wrapU 32 ((SI.end_ : ℤ) - SI.begin_)))

/-- `W`, `P` and `flags` after the width and the precision are resolved. -/
def resolve (SI : SpecInfo) (W P : ℤ) : ℤ × ℤ × Flags :=
  let adjusted := if W < 0 then { SI.flags with ladjust := true } else SI.flags
  let width := if W < 0 then -W else W
  let prec := if P < 0 then -1 else P
  if SI.width ≠ dynamicWidth ∧ SI.prec = dynamicPrecision then (SI.width, prec, SI.flags)
  else if SI.width = dynamicWidth ∧ SI.prec ≠ dynamicPrecision then (width, SI.prec, adjusted)
  else if SI.width ≠ dynamicWidth ∧ SI.prec ≠ dynamicPrecision then (SI.width, SI.prec, SI.flags)
  else (width, prec, adjusted)

/-- The size of what `%n` stores. -/
def countSize (flags : Flags) : ℕ :=
  if flags.longint then 8
  else if flags.shortint then 2
  else if flags.charint then 1
  else if flags.llongint then 8
  else if flags.intmaxt then 8
  else if flags.sizet then 8
  else if flags.ptrdifft then 8
  else 4

/-- Is the `reinterpret_cast` of `%n` well-formed for an argument of type `T`? It is only there for
what converts to `const void*`. -/
def castCompiles (SI : SpecInfo) (T : CType) : Bool :=
  SI.terminal != 'n' || !T.toVoidPtr || T.toIntPtr

/-- `SI.terminal_ == 'n'`, for an argument for which the cast compiles. -/
def storeCount (SI : SpecInfo) (arg : Arg) (out : OutbufArg) : OutbufArg :=
  if arg.type.toVoidPtr then
    { out with
      mem := writeAt out.mem arg.address (leBytes (countSize SI.flags) out.written.toNat) }
  else out.write errorText

/-- The field of an argument, `none` for `(ER)`. -/
def convert (lib : CLib) (SI : SpecInfo) (arg : Arg) (P : ℤ) (flags : Flags) (mem : Mem) :
    Option Field :=
  if SI.terminal = 'c' then do
    let cp ← convertChar lib SI arg
    return { src := .buf cp, size := cp.length, P := P, flags := flags, sign := SI.sign }
  else if SI.terminal = 's' then do
    let (cp, size) ← convertString lib SI arg P mem
    return { src := cp, size := size, P := P, flags := flags, sign := SI.sign }
  else if isIntTerminal SI.terminal ∨ SI.terminal = 'p' then
    convertInteger SI arg P flags SI.sign
  else if isFloatTerminal SI.terminal then convertFloat lib SI arg P flags SI.sign
  else some { src := .buf [], size := 0, P := P, flags := flags, sign := SI.sign }

/-- `converter_single<fmt, SI>(outbuf, arg, W, P)`. -/
def converterSingle (lib : CLib) (fmt : List Char) (SI : SpecInfo) (arg : Arg) (W P : ℤ)
    (out : OutbufArg) : OutbufArg :=
  -- the characters between the previous specifier and this one
  let out := out.write (literalText fmt SI)
  let (W, P, flags) := resolve SI W P
  if SI.terminal = 'n' then storeCount SI arg out
  else
    match convert lib SI arg P flags out.mem with
    | some f => writeField SI W f out
    | none => out.write errorText

/-! ### All specifiers -/

/-- `formattedPrec(n)`. -/
def formattedPrec (arg : Arg) : ℤ :=
  match arg.type with
  | .int t => wrapS 32 (Arg.intValue t arg.bytes)
  | _ => -1

/-- `formattedWidth(n)`. -/
def formattedWidth (arg : Arg) : ℤ :=
  match arg.type with
  | .int t => wrapS 32 (Arg.intValue t arg.bytes)
  | _ => 0

/-- How many arguments a specifier takes for its width and its precision. -/
def numDynamic (SI : SpecInfo) : ℕ :=
  (if SI.width = dynamicWidth then 1 else 0) + (if SI.prec = dynamicPrecision then 1 else 0)

/-- Does every `converter_single` that `converter_impl` instantiates for arguments of the types
`Ts` compile? -/
def castsCompile : List SpecInfo → List CType → Bool
  | SI :: SI' :: SIs, Ts =>
      match Ts.drop (numDynamic SI) with
      | T :: Ts => castCompiles SI T && castsCompile (SI' :: SIs) Ts
      | [] => true
  | _, _ => true

/-- `converter_impl<fmt, SIs...>(outbuf, args...)`, with `converter_args`, `converter_D_args`
and `converter_D_D_args`. A call with too few arguments does not compile. -/
def converterImpl (lib : CLib) (fmt : List Char) :
    List SpecInfo → List Arg → OutbufArg → Option OutbufArg
  | [], _, _ => none
  | [SI], _, out => some (out.write (literalText fmt SI))
  | SI :: SIs, args, out =>
      if SI.width = dynamicWidth ∧ SI.prec = dynamicPrecision then
        match args with
        | d₁ :: d₂ :: arg :: rest =>
            converterImpl lib fmt SIs rest
              (if SI.wFirst then
                converterSingle lib fmt SI arg (formattedWidth d₁) (formattedPrec d₂) out
              else converterSingle lib fmt SI arg (formattedWidth d₂) (formattedPrec d₁) out)
        | _ => none
      else if SI.width = dynamicWidth ∨ SI.prec = dynamicPrecision then
        match args with
        | d :: arg :: rest =>
            converterImpl lib fmt SIs rest
              (if SI.width = dynamicWidth then
                converterSingle lib fmt SI arg (formattedWidth d) (-1) out
              else converterSingle lib fmt SI arg 0 (formattedPrec d) out)
        | _ => none
      else
        match args with
        | arg :: rest =>
            converterImpl lib fmt SIs rest (converterSingle lib fmt SI arg 0 (-1) out)
        | [] => none

/-- `Converter<SIs...>::convert`, with its `static_assert`; `none` where it does not compile. -/
def convertAll (lib : CLib) (fmt : List Char) (SIs : List SpecInfo) (args : List Arg)
    (out : OutbufArg) : Option OutbufArg :=
  if countArgsRequired SIs ≤ args.length ∧ castsCompile SIs (args.map Arg.type) then
    converterImpl lib fmt SIs args out
  else none

/-- `CFMT_STR_OUTBUFARG(outbuf, format, ...)`; `none` where it does not compile. -/
def cfmtStrOutbufArg (lib : CLib) (format : List Char) (args : List Arg) (out : OutbufArg) :
    Option OutbufArg :=
  match specInfos format, runTimeStr format with
  | .ok SIs, .ok kRTStr => convertAll lib kRTStr SIs args out
  | _, _ => none

/-- `CFMT_STR(result, buffer, count, format, ...)`: `result`, and the buffer in its memory. -/
def cfmtStr (lib : CLib) (mem : Mem) (buffer count : ℕ) (format : List Char) (args : List Arg) :
    Option (UInt64 × OutbufArg) := do
  let outbuf ← cfmtStrOutbufArg lib format args (.new mem buffer count)
  return (outbuf.written, outbuf.done)

end ConstexprFmtStr
