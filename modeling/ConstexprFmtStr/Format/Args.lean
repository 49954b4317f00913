import Mathlib.Tactic
import ConstexprFmtStr.Format.Outbuf
import ConstexprFmtStr.Format.Scanners
import ConstexprFmtStr.Lib.Word

/-!
The arguments of a format, and what the converters take from the C library.

* `CType`, `Arg`: the type of an argument as far as the `if constexpr`s of the converters ask
  for it, and the argument as its object bytes. Sizes and encodings are those of an LP64 target.
* `SARG`, `UARG`: an integral argument reduced to the type its length modifier names.
* `nulIndex`, `wnulIndex`: the library's searches for the end of a string.
* `CLib`: what is not integer arithmetic. The conversions of wide characters and of floating
  point numbers are parameters.
-/

namespace ConstexprFmtStr

open Slice Word

/-! ### Types and objects -/

/-- An integral type: its `sizeof` and its signedness. -/
structure IntType where
  size : ℕ
  signed : Bool
  deriving DecidableEq

/-- The floating point types. -/
inductive FloatKind
  | float
  | double
  | longDouble
  deriving DecidableEq

/-- The type of an argument. -/
inductive CType
  /-- an integral type, `bool` and the character types among them -/
  | int (t : IntType)
  /-- a floating point type -/
  | flt (k : FloatKind)
  /-- `std::nullptr_t` -/
  | nullptr
  /-- `const char*` or `char*` -/
  | charPtr (isConst : Bool)
  /-- `const wchar_t*` or `wchar_t*` -/
  | wcharPtr (isConst : Bool)
  /-- another pointer to an object or to `void`, which is const or not -/
  | ptr (isConst : Bool)
  deriving DecidableEq

namespace CType

/-- `sizeof(T)`. -/
def size : CType → ℕ
  | int t => t.size
  | flt .float => 4
  | flt .double => 8
  | flt .longDouble => 16
  | _ => 8

/-- `std::is_convertible_v<T, const void*>`. -/
def toVoidPtr : CType → Bool
  | int _ | flt _ => false
  | _ => true

/-- `std::is_convertible_v<T, const char*>`. -/
def toCharPtr : CType → Bool
  | nullptr | charPtr _ => true
  | _ => false

/-- `std::is_convertible_v<T, const wchar_t*>`. -/
def toWcharPtr : CType → Bool
  | nullptr | wcharPtr _ => true
  | _ => false

/-- Is `reinterpret_cast<int*>` of a pointer well-formed? It may not cast const away, and does not
take `std::nullptr_t`. -/
def toIntPtr : CType → Bool
  | charPtr isConst | wcharPtr isConst | ptr isConst => !isConst
  | _ => false

lemma toVoidPtr_of_toIntPtr {T : CType} (h : T.toIntPtr = true) : T.toVoidPtr = true := by
  cases T with
  | int t => exact absurd h Bool.false_ne_true
  | flt k => exact absurd h Bool.false_ne_true
  | _ => rfl

end CType

/-- An argument: its type and the bytes of the object. -/
structure Arg where
  type : CType
  bytes : List UInt8
  length_bytes : bytes.length = type.size

namespace Arg

/-- The value of an integral argument. -/
def intValue (t : IntType) (bytes : List UInt8) : ℤ :=
  if t.signed then wrapS (8 * t.size) (leValue bytes) else leValue bytes

/-- The address a pointer argument holds. -/
def address (arg : Arg) : ℕ := if arg.type = .nullptr then 0 else leValue arg.bytes

end Arg

/-- The string at the address `a`. -/
def strArg (a : ℕ) : Arg where
  type := .charPtr true
  bytes := leBytes 8 a
  length_bytes := length_leBytes 8 a

/-! ### Integral arguments -/

/-- `SARG<flag>(arg)`, of an argument of value `v`. -/
def SARG (flag : Flags) (v : ℤ) : ℕ :=
  if flag.longint then wrapU 64 (wrapS 64 v)
  else if flag.shortint then wrapU 64 (wrapS 16 v)
  else if flag.charint then wrapU 64 (wrapS 8 v)
  else if flag.llongint then wrapU 64 (wrapS 64 v)
  else if flag.sizet then wrapU 64 (wrapS 64 v)
  else if flag.ptrdifft then wrapU 64 (wrapS 64 v)
  else if flag.intmaxt then wrapU 64 (wrapS 64 v)
  else wrapU 64 (wrapS 32 v)

/-- `UARG<flag>(arg)`, of an argument of value `v`. -/
def UARG (flag : Flags) (v : ℤ) : ℕ :=
  if flag.longint then wrapU 64 v
  else if flag.shortint then wrapU 16 v
  else if flag.charint then wrapU 8 v
  else if flag.llongint then wrapU 64 v
  else if flag.sizet then wrapU 64 v
  else if flag.ptrdifft then wrapU 64 v
  else if flag.intmaxt then wrapU 64 v
  else wrapU 32 v

lemma SARG_lt (flag : Flags) (v : ℤ) : SARG flag v < 2 ^ 64 := by
  rw [SARG]
  split_ifs <;> exact wrapU_lt 64 _

lemma UARG_lt (flag : Flags) (v : ℤ) : UARG flag v < 2 ^ 64 := by
  have hle (w : ℕ) (hw : w ≤ 64) : wrapU w v < 2 ^ 64 :=
    (wrapU_lt w v).trans_le (Nat.pow_le_pow_right (by norm_num) hw)
  rw [UARG]
  split_ifs <;> exact hle _ (by norm_num)

/-! ### Strings -/

/-- How many of the `n` bytes from the address `a` on stand before the first NUL. -/
def nulIndex (mem : Mem) : ℕ → ℕ → ℕ
  | 0, _ => 0
  | n + 1, a => if mem a = 0 then 0 else nulIndex mem n (a + 1) + 1

/-- `strlen` of the string at `a`. -/
def strlen (mem : Mem) (a : ℕ) : ℕ := nulIndex mem (2 ^ 64) a

/-- `sizeof(wchar_t)`, `MARKUP_SIZEOFWCHAR`. -/
def sizeofWchar : ℕ := 4

/-- The wide character at `a`. -/
def wcharAt (mem : Mem) (a : ℕ) : ℕ := leValue (slice mem a sizeofWchar)

/-- How many of the `n` wide characters from the address `a` on stand before the first
`L'\0'`. -/
def wnulIndex (mem : Mem) : ℕ → ℕ → ℕ
  | 0, _ => 0
  | n + 1, a => if wcharAt mem a = 0 then 0 else wnulIndex mem n (a + sizeofWchar) + 1

/-- `wcslen` of the wide string at `a`. -/
def wcslen (mem : Mem) (a : ℕ) : ℕ := wnulIndex mem (2 ^ 64) a

/-- The wide string at `a`, without its `L'\0'`. -/
def wideString (mem : Mem) (a : ℕ) : List ℕ :=
  (List.range (wcslen mem a)).map fun i => wcharAt mem (a + sizeofWchar * i)

/-! ### The C library -/

/-- The classes of `std::fpclassify`. -/
inductive FpClass
  | zero
  | subnormal
  | normal
  | infinite
  | nan
  | other
  deriving DecidableEq

/-- `std::chars_format`. -/
inductive CharsFormat
  | fixed
  | scientific
  | hex
  | general
  deriving DecidableEq

/-- What the converters call. A floating point number is given by its type and its bytes;
`none` is an error. -/
structure CLib where
  /-- `std::c32rtomb`, from the initial state -/
  c32rtomb : ℕ → Option (List UInt8)
  /-- `std::wcsrtombs` of a wide string into so many bytes, from the initial state -/
  wcsrtombs : List ℕ → ℕ → Option (List UInt8)
  /-- `static_cast<int>` -/
  floatToInt : FloatKind → List UInt8 → ℤ
  /-- `static_cast<char32_t>` -/
  floatToChar32 : FloatKind → List UInt8 → ℕ
  /-- `std::fpclassify` -/
  fpclassify : FloatKind → List UInt8 → FpClass
  /-- `arg < 0.0` -/
  isNegative : FloatKind → List UInt8 → Bool
  /-- `std::abs` -/
  abs : FloatKind → List UInt8 → List UInt8
  /-- `static_cast<int>(std::floor(std::log10(arg)))` -/
  floorLog10 : FloatKind → List UInt8 → ℤ
  /-- `std::to_chars` of the number as a `long double` or a `double`, into so many bytes -/
  toChars : FloatKind → List UInt8 → Bool → CharsFormat → ℤ → ℕ → Option (List Char)

/-- The "C" locale, where every floating point number is taken for zero. -/
def CLib.ascii : CLib where
  c32rtomb c := if c < 128 then some [UInt8.ofNat c] else none
  wcsrtombs ws n := if ws.all (· < 128) then some ((ws.take n).map UInt8.ofNat) else none
  floatToInt _ _ := 0
  floatToChar32 _ _ := 0
  fpclassify _ _ := .zero
  isNegative _ _ := false
  abs _ bytes := bytes
  floorLog10 _ _ := 0
  toChars _ _ _ _ _ _ := some ['0']

end ConstexprFmtStr
