import Mathlib.Tactic

/-!
The compile-time scanners of `constexpr_fmt.h`.

* `isTerminal`, `isFlag`, `isLength`, `isDigit`: the character classes, and `isSpecChar`, the
  condition of the loops that skip over what stands between a '%' and its terminal.
* `SpecInfo`: what is known of a specifier at compile time.
* `countValidSpecInfos`, `squeezeSoundSize`, `preprocessInvalidSpecs`, `getOneSpec`: the four
  scanners, each with its own loops and its own position.

A scanner is evaluated at compile time: a read past the array, an `int` overflow or a `throw`
is an error there, and here the `Except` value that says which. The loops have fuel, one pass
a unit; that the fuel never runs out is part of what is proved of them. `fmt` is the array of
the literal, its terminating '\0' included.
-/

namespace ConstexprFmtStr

/-- What keeps the evaluation of a scanner from being a constant expression. -/
inductive ScanError
  /-- a read past the end of the array -/
  | outOfBounds
  /-- the value of an `int` expression does not fit -/
  | overflow
  /-- `TZ_THROW(tz::TzError{ "A format specifier required" })` -/
  | formatSpecifierRequired
  /-- the loop did not end -/
  | outOfFuel
  deriving DecidableEq

/-- The result of a compile-time evaluation. -/
abbrev Scan := Except ScanError

/-- '\0' -/
abbrev nul : Char := '\x00'

/-- `INT_MAX`. -/
def intMax : ℤ := 2 ^ 31 - 1

/-! ### Character classes -/

/-- `isTerminal(c)`. -/
def isTerminal (c : Char) : Bool :=
  c == 'd' || c == 'i' || c == 'u' || c == 'o' || c == 'x' || c == 'X' || c == 'f' || c == 'F' ||
    c == 'e' || c == 'E' || c == 'g' || c == 'G' || c == 'a' || c == 'A' || c == 'c' ||
    c == 'p' || c == 's' || c == 'n'

/-- `isFlag(c)`. -/
def isFlag (c : Char) : Bool := c == '-' || c == '+' || c == ' ' || c == '#' || c == '0'

/-- `isLength(c)`. -/
def isLength (c : Char) : Bool :=
  c == 'h' || c == 'l' || c == 'j' || c == 'z' || c == 't' || c == 'L'

/-- `isDigit(c)`. -/
def isDigit (c : Char) : Bool := '0' ≤ c && c ≤ '9'

/-- `toDigit(c)`. -/
def toDigit (c : Char) : ℤ := (c.toNat : ℤ) - '0'.toNat

/-- The condition of the loops over flags, digits, lengths, '.' and '*'. -/
def isSpecChar (c : Char) : Bool :=
  isFlag c || isDigit c || isLength c || c == '.' || c == '*'

/-! ### What is known of a specifier -/

/-- The bits `__FLAG_*`. -/
structure Flags where
  alt : Bool := false
  zeropad : Bool := false
  ladjust : Bool := false
  longdbl : Bool := false
  longint : Bool := false
  llongint : Bool := false
  shortint : Bool := false
  sizet : Bool := false
  ptrdifft : Bool := false
  intmaxt : Bool := false
  charint : Bool := false
  deriving DecidableEq

/-- `f | g`. -/
def Flags.or (f g : Flags) : Flags where
  alt := f.alt || g.alt
  zeropad := f.zeropad || g.zeropad
  ladjust := f.ladjust || g.ladjust
  longdbl := f.longdbl || g.longdbl
  longint := f.longint || g.longint
  llongint := f.llongint || g.llongint
  shortint := f.shortint || g.shortint
  sizet := f.sizet || g.sizet
  ptrdifft := f.ptrdifft || g.ptrdifft
  intmaxt := f.intmaxt || g.intmaxt
  charint := f.charint || g.charint

/-- `DYNAMIC_WIDTH`, as an `int`. -/
def dynamicWidth : ℤ := -2 ^ 31

/-- `DYNAMIC_PRECISION`, as an `int`. -/
def dynamicPrecision : ℤ := -2 ^ 31

/-- The static format information of a specifier. -/
structure SpecInfo where
  begin_ : ℕ := 0
  end_ : ℕ := 0
  flags : Flags := {}
  width : ℤ := 0
  prec : ℤ := -1
  sign : Char := nul
  terminal : Char := nul
  wFirst : Bool := true
  deriving DecidableEq

/-! ### Reading the array -/

/-- `fmt[pos]`. -/
def charAt (fmt : List Char) (pos : ℕ) : Scan Char :=
  match fmt[pos]? with
  | some c => .ok c
  | none => .error .outOfBounds

/-- The loop of `skipWhile` on the rest of the array. -/
def skipFrom (p : Char → Bool) : List Char → ℕ → Scan ℕ
  | [], _ => .error .outOfBounds
  | c :: cs, pos => if p c then skipFrom p cs (pos + 1) else .ok pos

/-- `while (p(fmt[pos])) pos++;`, with the position it ends at. -/
def skipWhile (p : Char → Bool) (fmt : List Char) (pos : ℕ) : Scan ℕ :=
  skipFrom p (fmt.drop pos) pos

/-- The condition of `for (; (fmt[pos] != '\0') && (fmt[pos] != '%'); pos++);`. -/
def isPlain (c : Char) : Bool := c != nul && c != '%'

/-! ### `countValidSpecInfos` -/

/-- The `for (;;)` of `countValidSpecInfos`. -/
def countLoop (fmt : List Char) : ℕ → ℕ → ℕ → Scan ℕ
  | 0, _, _ => .error .outOfFuel
  | fuel + 1, pos, count => do
      let pos ← skipWhile isPlain fmt pos
      if (← charAt fmt pos) = nul then return count
      let pos ← skipWhile isSpecChar fmt (pos + 1)
      let c ← charAt fmt pos
      let count := if isTerminal c then count + 1 else count
      if c = nul then return count
      countLoop fmt fuel (pos + 1) count

/-- `countValidSpecInfos(fmt)`. -/
def countValidSpecInfos (fmt : List Char) : Scan ℕ := countLoop fmt fmt.length 0 0

/-! ### `squeezeSoundSize` -/

/-- The `for (;;)` of `squeezeSoundSize`. -/
def squeezeLoop (fmt : List Char) : ℕ → ℕ → ℤ → Scan ℤ
  | 0, _, _ => .error .outOfFuel
  | fuel + 1, pos, size => do
      let specStartPos ← skipWhile isPlain fmt pos
      if (← charAt fmt specStartPos) = nul then return size
      let pos ← skipWhile isSpecChar fmt (specStartPos + 1)
      let c ← charAt fmt pos
      let size := if isTerminal c then size else size - ((pos : ℤ) - specStartPos)
      if c = nul then return size
      squeezeLoop fmt fuel (pos + 1) size

/-- `squeezeSoundSize(fmt)`. -/
def squeezeSoundSize (fmt : List Char) : Scan ℤ := squeezeLoop fmt fmt.length 0 fmt.length

/-! ### `preprocessInvalidSpecs` -/

/-- `storeOneChar(fmt, offset, num)`: the character and the new `offset`. -/
def storeOneChar (fmt : List Char) (offset num : ℕ) : Scan (Char × ℕ) := do
  let saveOffset := offset
  if num + offset < fmt.length then
    if (← charAt fmt (num + offset)) = '%' then
      let pos ← skipWhile isSpecChar fmt (num + (offset + 1))
      let offset := if isTerminal (← charAt fmt pos) then saveOffset else pos - num
      return (← charAt fmt (num + offset), offset)
    else return (← charAt fmt (num + offset), offset)
  else return (nul, offset)

/-- `storeOneChar(fmt, offset, Indices)...` for the given indices, `offset` handed on. -/
def storeChars (fmt : List Char) : ℕ → List ℕ → Scan (List Char)
  | _, [] => return []
  | offset, num :: nums => do
      let (c, offset) ← storeOneChar fmt offset num
      return c :: (← storeChars fmt offset nums)

/-- `preprocessInvalidSpecs<Len>(fmt)`: the array of `Len` characters if `Len < N`, else the
empty one. -/
def preprocessInvalidSpecs (len : ℤ) (fmt : List Char) : Scan (List Char) :=
  if len < fmt.length then storeChars fmt 0 (List.range len.toNat) else return []

/-- `kRTStr` of `CFMT_STR` and `TZ_LOG`: `kSS < sizeof(format) ? kfmtArr.data() : format`. -/
def runTimeStr (fmt : List Char) : Scan (List Char) := do
  let kSS ← squeezeSoundSize fmt
  let kfmtArr ← preprocessInvalidSpecs kSS fmt
  return if kSS < fmt.length then kfmtArr else fmt

/-! ### `getOneSpec` -/

/-- The first loop of `getOneSpec`, over the `num` specifiers before the one looked for: `pos`,
`sizeOfInvalidSpecs` and `begin` at its end. -/
def skipSpecs (fmt : List Char) : ℕ → ℕ → ℕ → ℕ → ℕ → Scan (ℕ × ℕ × ℕ)
  | _, 0, pos, inv, begin_ => return (pos, inv, begin_)
  | 0, _ + 1, _, _, _ => .error .outOfFuel
  | fuel + 1, num + 1, pos, inv, begin_ => do
      let specStartPos ← skipWhile (· != '%') fmt pos
      let pos ← skipWhile isSpecChar fmt (specStartPos + 1)
      if isTerminal (← charAt fmt pos) then
        skipSpecs fmt fuel num (pos + 1) inv (if num = 0 then pos + 1 - inv else begin_)
      else skipSpecs fmt fuel (num + 1) (pos + 1) (inv + (pos - specStartPos)) begin_

/-- The second loop, up to the specifier looked for: `specStartPos` and `end`, and whether it
stopped at the '\0'. -/
def nextSpec (fmt : List Char) : ℕ → ℕ → ℕ → ℕ → Scan (ℕ × ℕ × Bool)
  | 0, _, _, _ => .error .outOfFuel
  | fuel + 1, pos, inv, specStartPos => do
      let pos ← skipWhile isPlain fmt pos
      if (← charAt fmt pos) = nul then return (specStartPos, pos - inv, true)
      let specStartPos := pos
      let pos ← skipWhile isSpecChar fmt (specStartPos + 1)
      let c ← charAt fmt pos
      if isTerminal c then return (specStartPos, specStartPos - inv, false)
      let inv := inv + (pos - specStartPos)
      if c = nul then return (specStartPos, pos - inv, true)
      nextSpec fmt fuel (pos + 1) inv specStartPos

/-- The locals of `getOneSpec` that its `switch` sets. -/
structure SpecFields where
  flags : Flags := {}
  width : ℤ := 0
  prec : ℤ := -1
  sign : Char := nul
  terminal : Char := nul
  widthFirst : Bool := true
  intWidth : Flags := {}
  deriving DecidableEq

/-- The digit loop on the rest of the array. -/
def readDigitsFrom : List Char → ℕ → ℤ → Scan (ℕ × ℤ)
  | [], _, _ => .error .outOfBounds
  | c :: cs, pos, v =>
      if isDigit c then
        if intMax < 10 * v + toDigit c then .error .overflow
        else readDigitsFrom cs (pos + 1) (10 * v + toDigit c)
      else .ok (pos, v)

/-- `while (isDigit(fmt[pos])) { v = 10 * v + toDigit(fmt[pos]); pos++; }`. -/
def readDigits (fmt : List Char) (pos : ℕ) (v : ℤ) : Scan (ℕ × ℤ) :=
  readDigitsFrom (fmt.drop pos) pos v

/-- The terminals listed in the `switch`. -/
def switchTerminals : List Char :=
  ['c', 'd', 'i', 'a', 'A', 'e', 'E', 'f', 'F', 'g', 'G', 'n', 'o', 'p', 's', 'u', 'X', 'x']

/-- The body of the `switch` at `fmt[pos]`: `pos` where it breaks, the locals, and `exit`. -/
def switchSpec (fmt : List Char) (pos : ℕ) (f : SpecFields) : Scan (ℕ × SpecFields × Bool) := do
  let c ← charAt fmt pos
  if c = ' ' then return (pos, if f.sign = nul then { f with sign := ' ' } else f, false)
  else if c = '#' then return (pos, { f with flags := { f.flags with alt := true } }, false)
  else if c = '*' then
    return (pos, { f with
      width := dynamicWidth
      widthFirst := if f.prec = dynamicPrecision then false else f.widthFirst }, false)
  else if c = '-' then return (pos, { f with flags := { f.flags with ladjust := true } }, false)
  else if c = '+' then return (pos, { f with sign := '+' }, false)
  else if c = '.' then
    if (← charAt fmt (pos + 1)) = '*' then
      return (pos + 1, { f with
        prec := dynamicPrecision
        widthFirst := if f.width = dynamicWidth then true else f.widthFirst }, false)
    else
      let (pos, prec) ← readDigits fmt (pos + 1) 0
      return (pos - 1, { f with prec := prec }, false)
  else if c = '0' then return (pos, { f with flags := { f.flags with zeropad := true } }, false)
  else if isDigit c then
    let (pos, width) ← readDigits fmt pos 0
    return (pos - 1, { f with width := width }, false)
  else if c = 'L' then return (pos, { f with flags := { f.flags with longdbl := true } }, false)
  else if c = 'h' then
    if (← charAt fmt (pos + 1)) = 'h' then
      return (pos + 1, { f with intWidth := { charint := true } }, false)
    else return (pos, { f with intWidth := { shortint := true } }, false)
  else if c = 'l' then
    if (← charAt fmt (pos + 1)) = 'l' then
      return (pos + 1, { f with intWidth := { llongint := true } }, false)
    else return (pos, { f with intWidth := { longint := true } }, false)
  else if c = 'j' then return (pos, { f with intWidth := { intmaxt := true } }, false)
  else if c = 't' then return (pos, { f with intWidth := { ptrdifft := true } }, false)
  else if c = 'z' then return (pos, { f with intWidth := { sizet := true } }, false)
  else if c ∈ switchTerminals then return (pos, { f with terminal := c }, true)
  else .error .formatSpecifierRequired

/-- The third loop, over the characters of the specifier. -/
def specLoop (fmt : List Char) : ℕ → ℕ → SpecFields → Scan SpecFields
  | 0, _, _ => .error .outOfFuel
  | fuel + 1, pos, f => do
      let (pos, f, exit) ← switchSpec fmt pos f
      if exit then return f else specLoop fmt fuel (pos + 1) f

/-- `getOneSpec(fmt, num)`. -/
def getOneSpec (fmt : List Char) (num : ℕ) : Scan SpecInfo := do
  let (pos, inv, begin_) ← skipSpecs fmt fmt.length num 0 0 0
  let (specStartPos, end_, exit) ← nextSpec fmt fmt.length pos inv 0
  let f ← if exit then pure {} else specLoop fmt fmt.length (specStartPos + 1) {}
  return {
    begin_ := begin_
    end_ := end_
    flags := f.flags.or f.intWidth
    width := f.width
    prec := f.prec
    sign := f.sign
    terminal := f.terminal
    wFirst := f.widthFirst }

/-- `countArgsRequired<SIs...>()`. -/
def countArgsRequired (SIs : List SpecInfo) : ℕ :=
  (SIs.map fun SI =>
    (if isTerminal SI.terminal then 1 else 0) + (if SI.width = dynamicWidth then 1 else 0) +
      (if SI.prec = dynamicPrecision then 1 else 0)).sum

/-- The pack `getOneSpec(*fmt, Is)...` that `unpack` hands to `Converter` and to
`LogEntryHandler`, with `kNVSIs + 1` entries. -/
def specInfos (fmt : List Char) : Scan (List SpecInfo) := do
  let kNVSIs ← countValidSpecInfos fmt
  (List.range (kNVSIs + 1)).mapM (getOneSpec fmt)

end ConstexprFmtStr
