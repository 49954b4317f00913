import Mathlib.Tactic
import ConstexprFmtStr.Format.Emitted

/-!
`%ls`, which converts a wide string in an array on the stack.

* `LongestWhole`, `ConvertsWide`: what `std::wcsrtombs` converts.
* `wideStores`: the stores of the branch into `buf`. `stack_wideStores`: with `buf` as they leave
  it, the branch finds the text that `convertString` finds.
* `converterSingle_wideString`: the stores stay in `buf` unless a prefix of the string takes
  exactly its 1000 bytes.
-/

namespace ConstexprFmtStr

open Slice Word

/-! ### Whole characters -/

/-- The characters of a wide string, converted one by one. -/
def wideBytes (enc : ℕ → List UInt8) (ws : List ℕ) : List UInt8 := ws.flatMap enc

/-- `text` is the longest prefix of whole converted characters in `n` bytes. -/
def LongestWhole (enc : ℕ → List UInt8) (ws : List ℕ) (n : ℕ) (text : List UInt8) : Prop :=
  ∃ k ≤ ws.length, text = wideBytes enc (ws.take k) ∧ text.length ≤ n ∧
    ∀ j ≤ ws.length, (wideBytes enc (ws.take j)).length ≤ n → j ≤ k

/-- `std::wcsrtombs` converts the string `ws` character by character, to multibyte characters
without a NUL byte, as far as there is room. -/
structure ConvertsWide (lib : CLib) (enc : ℕ → List UInt8) (ws : List ℕ) : Prop where
  nul_notMem : ∀ w ∈ ws, 0 ∉ enc w
  wcsrtombs_eq : ∀ n, ∃ text, lib.wcsrtombs ws n = some text ∧ LongestWhole enc ws n text

variable {lib : CLib} {enc : ℕ → List UInt8} {ws : List ℕ} {text : List UInt8}

lemma length_wideBytes_take_le (enc : ℕ → List UInt8) (ws : List ℕ) {j k : ℕ} (h : j ≤ k) :
    (wideBytes enc (ws.take j)).length ≤ (wideBytes enc (ws.take k)).length := by
  obtain ⟨i, rfl⟩ := Nat.exists_eq_add_of_le h
  rw [wideBytes, wideBytes, List.take_add, List.flatMap_append, List.length_append]
  exact Nat.le_add_right _ _

/-- The longest prefix has `n` bytes if some prefix has. -/
lemma LongestWhole.length_eq_iff {n : ℕ} (h : LongestWhole enc ws n text) :
    text.length = n ↔ ∃ k ≤ ws.length, (wideBytes enc (ws.take k)).length = n := by
  obtain ⟨k, hk, rfl, hle, hmax⟩ := h
  constructor
  · intro hlen
    exact ⟨k, hk, hlen⟩
  · rintro ⟨j, hj, hlen⟩
    have hjk := length_wideBytes_take_le enc ws (hmax j hj hlen.le)
    omega

lemma ConvertsWide.nul_notMem_text (h : ConvertsWide lib enc ws) {n : ℕ}
    (htext : LongestWhole enc ws n text) : 0 ∉ text := by
  obtain ⟨k, -, rfl, -⟩ := htext
  intro hmem
  obtain ⟨w, hw, hbyte⟩ := List.mem_flatMap.mp hmem
  exact h.nul_notMem w (List.mem_of_mem_take hw) hbyte

/-! ### The array -/

/-- `BUFSIZE_lS`, the size `BUF` of the array `buf` of `%ls`. -/
def bufsizeLS : ℕ := stackMemorySize

/-- The room that `wcsrtombs` is given. -/
def wideRoom (P : ℤ) : ℕ := if P < 0 then stackMemorySize else min P.toNat stackMemorySize

/-- The stores into `buf`, each with its index: those of `wcsrtombs`, with a '\0' if the string
has `ended` and there is room, and `buf[size] = '\0'`. `none` for an error of `wcsrtombs`. -/
def wideStores (lib : CLib) (ws : List ℕ) (P : ℤ) (ended : Bool) : Option (List (ℕ × UInt8)) :=
  (lib.wcsrtombs ws (wideRoom P)).map fun text =>
    let stored := if ended ∧ text.length < wideRoom P then text ++ [0] else text
    stored.zipIdx.map Prod.swap ++ [(text.length, 0)]

/-- The stack from `buf` on, after some stores. -/
def storeAll (stack : Mem) (stores : List (ℕ × UInt8)) : Mem :=
  stores.foldl (fun stack s => writeAt stack s.1 [s.2]) stack

lemma storeAll_append (stack : Mem) (ss ts : List (ℕ × UInt8)) :
    storeAll stack (ss ++ ts) = storeAll (storeAll stack ss) ts := List.foldl_append

lemma storeAll_zipIdx (stack : Mem) (bs : List UInt8) (a : ℕ) :
    storeAll stack ((bs.zipIdx a).map Prod.swap) = writeAt stack a bs := by
  induction bs generalizing stack a with
  | nil => exact (writeAt_nil stack a).symm
  | cons b bs ih =>
      rw [List.zipIdx_cons, List.map_cons, storeAll, List.foldl_cons, ← storeAll, ih]
      exact writeAt_append stack a [b] bs

/-- What the stores leave: the characters, and a '\0' behind them. -/
lemma stack_wideStores {P : ℤ} {ended : Bool} {stores : List (ℕ × UInt8)}
    (htext : lib.wcsrtombs ws (wideRoom P) = some text)
    (h : wideStores lib ws P ended = some stores) (stack : Mem) :
    slice (storeAll stack stores) 0 text.length = text ∧
      storeAll stack stores text.length = 0 := by
  rw [wideStores, htext, Option.map_some, Option.some.injEq] at h
  rw [← h, storeAll_append, storeAll_zipIdx]
  have hlast : storeAll (writeAt stack 0 (if ended ∧ text.length < wideRoom P then text ++ [0]
      else text)) [(text.length, 0)] = writeAt stack 0 (text ++ [0]) := by
    have hover : ∀ mem : Mem, writeAt (writeAt mem text.length [0]) text.length [0] =
        writeAt mem text.length [0] := by
      intro mem
      funext i
      by_cases hi : i = text.length
      · simp [writeAt, hi]
      · rw [writeAt_of_disjoint (by simp; omega)]
    have happend := writeAt_append stack 0 text [0]
    rw [Nat.zero_add] at happend
    rw [storeAll, List.foldl_cons, List.foldl_nil]
    split_ifs
    · rw [← happend, hover]
    · exact happend
  rw [hlast]
  constructor
  · have hself := slice_writeAt_self stack 0 (text ++ [0])
    have htake := congrArg (List.take text.length) hself
    rwa [take_slice _ _ (by simp), List.take_left' rfl] at htake
  · simp [writeAt]

lemma length_le_stringLimit {P : ℤ} (h : LongestWhole enc ws (wideRoom P) text) :
    text.length ≤ stringLimit P := by
  obtain ⟨k, -, -, hle, -⟩ := h
  rw [wideRoom, stackMemorySize] at hle
  rw [stringLimit]
  split_ifs at hle ⊢ <;> omega

/-- What `convertString` finds in its characters. -/
lemma convertString_wide {SI : SpecInfo} (hl : SI.flags.longint = true) {arg : Arg} {isConst : Bool}
    (harg : arg.type = .wcharPtr isConst) {P : ℤ} {mem : Mem}
    (h : ConvertsWide lib enc (wideString mem arg.address))
    (htext : lib.wcsrtombs (wideString mem arg.address) (wideRoom P) = some text)
    (hlongest : LongestWhole enc (wideString mem arg.address) (wideRoom P) text) :
    convertString lib SI arg P mem = some (.buf text, text.length) := by
  have hscan : (CharSrc.buf text).nulIndex mem (stringLimit P) = text.length := by
    refine nulIndex_of_slice (h.nul_notMem_text hlongest) (length_le_stringLimit hlongest) ?_ ?_
    · refine List.ext_getElem? fun i => ?_
      by_cases hi : i < text.length
      · rw [getElem?_slice _ _ hi, Nat.zero_add, List.getD_eq_getElem?_getD,
          List.getElem?_eq_getElem hi]
        rfl
      · rw [List.getElem?_eq_none (by simpa using hi), List.getElem?_eq_none (by omega)]
    · rw [Nat.zero_add, List.getD_eq_getElem?_getD, List.getElem?_eq_none le_rfl]
      rfl
  have hroom : (if P < 0 then stackMemorySize else min P.toNat stackMemorySize) = wideRoom P := rfl
  have hwide : (CType.wcharPtr isConst).toWcharPtr = true := rfl
  rw [convertString, harg, if_neg (by simp), if_pos hl, if_pos hwide]
  simp only [hroom, htext]
  exact congrArg (fun n => some (CharSrc.buf text, n)) hscan

/-- **The two scans agree.** With `buf` as the stores leave it, whatever it was before, the
second scan of `converter_single` finds the same text. -/
lemma scan_wideStores {P : ℤ} (h : ConvertsWide lib enc ws)
    (htext : lib.wcsrtombs ws (wideRoom P) = some text)
    (hlongest : LongestWhole enc ws (wideRoom P) text) {ended : Bool}
    {stores : List (ℕ × UInt8)} (hstores : wideStores lib ws P ended = some stores)
    (stack : Mem) :
    nulIndex (storeAll stack stores) (stringLimit P) 0 = text.length ∧
      slice (storeAll stack stores) 0 text.length = text := by
  obtain ⟨hslice, hend⟩ := stack_wideStores htext hstores stack
  refine ⟨nulIndex_of_slice (h.nul_notMem_text hlongest) (length_le_stringLimit hlongest) hslice ?_,
    hslice⟩
  rw [Nat.zero_add, hend]

/-! ### The field -/

/-- A text, padded to the width. -/
def paddedText (flags : Flags) (W : ℤ) (text : List UInt8) : List UInt8 :=
  let pad (c : Char) := List.replicate (W - text.length).toNat c.toUInt8
  if flags.ladjust then text ++ pad ' '
  else if flags.zeropad then pad '0' ++ text
  else pad ' ' ++ text

/-- **What `%ls` should do.** The negation of a negative width is an `int`, nothing is stored
outside `buf`, and the longest prefix of whole characters is what the second scan finds in `buf`
and what is printed, padded to the width. -/
structure WholeText (lib : CLib) (enc : ℕ → List UInt8) (fmt : List Char) (SI : SpecInfo)
    (arg : Arg) (W P : ℤ) (out : OutbufArg) : Prop where
  width_neg : SI.width = dynamicWidth → -2 ^ 31 < W
  stores_lt : ∀ ended stores,
    wideStores lib (wideString (out.write (literalText fmt SI)).mem arg.address)
      (resolve SI W P).2.1 ended = some stores → ∀ s ∈ stores, s.1 < bufsizeLS
  text_eq : ∃ text,
    LongestWhole enc (wideString (out.write (literalText fmt SI)).mem arg.address)
      (wideRoom (resolve SI W P).2.1) text ∧
    (∀ ended stores,
      wideStores lib (wideString (out.write (literalText fmt SI)).mem arg.address)
        (resolve SI W P).2.1 ended = some stores → ∀ stack,
        nulIndex (storeAll stack stores) (stringLimit (resolve SI W P).2.1) 0 = text.length ∧
          slice (storeAll stack stores) 0 text.length = text) ∧
    converterSingle lib fmt SI arg W P out = out.write (literalText fmt SI ++
      paddedText (resolve SI W P).2.2 (resolve SI W P).1 text)

/-- No prefix of the string takes exactly `STACK_MEMORY_SIZE` bytes, or the precision allows
fewer. -/
def FitsStack (enc : ℕ → List UInt8) (ws : List ℕ) (P : ℤ) : Prop :=
  0 ≤ P ∧ P < stackMemorySize ∨
    ∀ k ≤ ws.length, (wideBytes enc (ws.take k)).length ≠ stackMemorySize

lemma wideRoom_le (P : ℤ) : wideRoom P ≤ stackMemorySize := by
  rw [wideRoom]
  split_ifs
  · exact le_rfl
  · exact min_le_right _ _

/-- The stores stay in `buf` if the characters leave room for the '\0'. -/
lemma stores_lt_iff {P : ℤ} (htext : lib.wcsrtombs ws (wideRoom P) = some text)
    (hlongest : LongestWhole enc ws (wideRoom P) text) :
    (∀ ended stores, wideStores lib ws P ended = some stores →
      ∀ s ∈ stores, s.1 < bufsizeLS) ↔ FitsStack enc ws P := by
  have hroom := wideRoom_le P
  have hle : text.length ≤ wideRoom P := by
    obtain ⟨k, -, -, hle, -⟩ := hlongest
    exact hle
  have hlast : (∀ ended stores, wideStores lib ws P ended = some stores →
      ∀ s ∈ stores, s.1 < bufsizeLS) ↔ text.length < stackMemorySize := by
    constructor
    · intro h
      refine h false _ (by rw [wideStores, htext]; rfl) (text.length, 0) ?_
      exact List.mem_append_right _ (List.mem_singleton_self _)
    · intro hlt ended stores hstores s hs
      rw [wideStores, htext, Option.map_some, Option.some.injEq] at hstores
      rw [← hstores] at hs
      rcases List.mem_append.mp hs with hs | hs
      · obtain ⟨⟨b, i⟩, hmem, rfl⟩ := List.mem_map.mp hs
        have hi := List.snd_lt_of_mem_zipIdx hmem
        rw [bufsizeLS, Prod.fst_swap]
        split_ifs at hi with hended
        · rw [List.length_append, List.length_singleton] at hi
          omega
        · omega
      · rw [List.mem_singleton.mp hs]
        exact hlt
  rw [hlast, FitsStack]
  by_cases hP : 0 ≤ P ∧ P < stackMemorySize
  · have hlt : wideRoom P < stackMemorySize := by
      rw [wideRoom, if_neg (by omega)]
      omega
    exact ⟨fun _ => .inl hP, fun _ => by omega⟩
  · have hall : wideRoom P = stackMemorySize := by
      rw [wideRoom]
      split_ifs
      · rfl
      · omega
    rw [hall] at hlongest hle
    constructor
    · intro hlt
      refine .inr fun k hk hlen => ?_
      have := hlongest.length_eq_iff.mpr ⟨k, hk, hlen⟩
      omega
    · intro h
      refine lt_of_le_of_ne hle fun hlen => ?_
      obtain ⟨k, hk, hlen⟩ := hlongest.length_eq_iff.mp hlen
      exact (h.resolve_left hP) k hk hlen

/-- The text of `%ls`, whatever the width. -/
lemma converterSingle_whole {SI : SpecInfo} (hs : SI.terminal = 's') (fmt : List Char) {arg : Arg}
    (W P : ℤ) {out : OutbufArg}
    (hconv : convertString lib SI arg (resolve SI W P).2.1 (out.write (literalText fmt SI)).mem =
      some (.buf text, text.length)) (hlen : text.length ≤ stackMemorySize) :
    converterSingle lib fmt SI arg W P out = out.write (literalText fmt SI ++
      paddedText (resolve SI W P).2.2 (resolve SI W P).1 text) := by
  have hc : ¬SI.terminal = 'c' := by
    rw [hs]
    decide
  have hn : ¬SI.terminal = 'n' := by
    rw [hs]
    decide
  obtain ⟨f, hf⟩ : ∃ f : Field, f =
      { src := .buf text
        size := text.length
        P := (resolve SI W P).2.1
        flags := (resolve SI W P).2.2
        sign := SI.sign } := ⟨_, rfl⟩
  have hfield : convert lib SI arg (resolve SI W P).2.1 (resolve SI W P).2.2
      (out.write (literalText fmt SI)).mem = some f := by
    rw [convert, if_neg hc, if_pos hs, hconv, hf]
    rfl
  have hsplit : f.splitsExp SI = false := by simp [Field.splitsExp, hf]
  have htexts : ∀ mem, f.texts SI mem = (text, []) := by
    intro mem
    rw [Field.texts, hsplit, hf]
    simp [CharSrc.read]
  have hreal : f.realsz SI = text.length := by
    have hwrap : wrapS 32 text.length = text.length := by
      rw [stackMemorySize] at hlen
      exact wrapS_of_bounds (by omega) (by omega)
    simp [Field.realsz, hs, isIntTerminal, isFloatTerminal, isSignedTerminal, hf, hwrap]
  have hbytes : fieldBytes SI (resolve SI W P).1 f (text, []) =
      paddedText (resolve SI W P).2.2 (resolve SI W P).1 text := by
    rw [fieldBytes, paddedText, hreal, hsplit]
    simp only [hs, isIntTerminal, isFloatTerminal, isSignedTerminal]
    by_cases hleft : (resolve SI W P).2.2.ladjust = true
    · simp [hf, hleft]
    · by_cases hzero : (resolve SI W P).2.2.zeropad = true
      · simp [hf, hleft, hzero]
      · simp [hf, hleft, hzero]
  rw [converterSingle]
  simp only [if_neg hn, hfield]
  rw [writeField_eq (fun bs => by rw [htexts, htexts]), htexts, hbytes, OutbufArg.write_append]

/-- **Wide strings.** `%ls` stays in its array and prints whole characters, if and only if no
prefix of the string that the precision allows takes exactly 1000 bytes. -/
theorem converterSingle_wideString {SI : SpecInfo} (hs : SI.terminal = 's')
    (hl : SI.flags.longint = true) (fmt : List Char) {arg : Arg} {isConst : Bool}
    (harg : arg.type = .wcharPtr isConst) (W P : ℤ) (out : OutbufArg)
    (h : ConvertsWide lib enc
      (wideString (out.write (literalText fmt SI)).mem arg.address)) :
    WholeText lib enc fmt SI arg W P out ↔
      (SI.width = dynamicWidth → -2 ^ 31 < W) ∧
        FitsStack enc (wideString (out.write (literalText fmt SI)).mem arg.address)
          (resolve SI W P).2.1 := by
  obtain ⟨text, htext, hlongest⟩ := h.wcsrtombs_eq (wideRoom (resolve SI W P).2.1)
  have hstores := stores_lt_iff htext hlongest
  have hlen : text.length ≤ stackMemorySize := by
    obtain ⟨k, -, -, hle, -⟩ := hlongest
    exact hle.trans (wideRoom_le _)
  constructor
  · intro hwhole
    exact ⟨hwhole.width_neg, hstores.mp hwhole.stores_lt⟩
  · rintro ⟨hwidth, hfits⟩
    refine ⟨hwidth, hstores.mpr hfits, text, hlongest,
      fun ended stores => scan_wideStores h htext hlongest, ?_⟩
    exact converterSingle_whole hs fmt W P (convertString_wide hl harg h htext hlongest) hlen

/-! ### Two strings -/

/-- A memory with `n` letters `L'a'` from the address 0 on, and zeros behind. -/
def lettersMem (n : ℕ) : Mem := fun i => if i < 4 * n ∧ i % 4 = 0 then 97 else 0

/-- The wide string at the address 0. -/
def wideArg : Arg where
  type := .wcharPtr true
  bytes := leBytes 8 0
  length_bytes := length_leBytes 8 0

lemma wcharAt_lettersMem (n i : ℕ) :
    wcharAt (lettersMem n) (4 * i) = if i < n then 97 else 0 := by
  have hslice : slice (lettersMem n) (4 * i) 4 = [if i < n then 97 else 0, 0, 0, 0] := by
    simp only [slice_succ, slice_zero, lettersMem]
    congr 1
    · exact if_congr (by omega) rfl rfl
    · congr 1
      · exact if_neg (by omega)
      · congr 1
        · exact if_neg (by omega)
        · congr 1
          exact if_neg (by omega)
  rw [wcharAt, sizeofWchar, hslice]
  split_ifs <;> rfl

lemma wnulIndex_lettersMem {k n m : ℕ} (hk : k ≤ m) :
    wnulIndex (lettersMem (n + k)) m (4 * n) = k := by
  induction m generalizing n k with
  | zero => exact (Nat.le_zero.mp hk).symm
  | succ m ih =>
      rw [wnulIndex, wcharAt_lettersMem]
      cases k with
      | zero =>
          have hend : ¬n < n + 0 := Nat.lt_irrefl n
          rw [if_neg hend, if_pos rfl]
      | succ k =>
          have hnext := ih (n := n + 1) (Nat.le_of_succ_le_succ hk)
          rw [show n + 1 + k = n + (k + 1) by omega, Nat.mul_succ] at hnext
          have hin : n < n + (k + 1) := by omega
          rw [if_pos hin, if_neg (by decide : ¬(97 : ℕ) = 0), sizeofWchar, hnext]

lemma wideString_lettersMem {n : ℕ} (hn : n ≤ 2 ^ 64) :
    wideString (lettersMem n) 0 = List.replicate n 97 := by
  have hlen : wcslen (lettersMem n) 0 = n := by
    have h := wnulIndex_lettersMem (n := 0) hn
    rwa [Nat.zero_add, Nat.mul_zero] at h
  rw [wideString, hlen]
  refine List.eq_replicate_iff.mpr ⟨by simp, fun w hw => ?_⟩
  obtain ⟨i, hi, rfl⟩ := List.mem_map.mp hw
  rw [Nat.zero_add, sizeofWchar, wcharAt_lettersMem, if_pos (List.mem_range.mp hi)]

lemma wideBytes_replicate (n : ℕ) :
    wideBytes (fun w => [UInt8.ofNat w]) (List.replicate n 97) = List.replicate n 97 := by
  induction n with
  | zero => rfl
  | succ n ih =>
      rw [List.replicate_succ, wideBytes, List.flatMap_cons, ← wideBytes, ih]
      rfl

/-- The "C" locale converts letters to themselves. -/
lemma convertsWide_letters (n : ℕ) :
    ConvertsWide CLib.ascii (fun w => [UInt8.ofNat w]) (List.replicate n 97) := by
  have htake : ∀ k, wideBytes (fun w => [UInt8.ofNat w]) ((List.replicate n 97).take k) =
      List.replicate (min k n) 97 := by
    intro k
    rw [List.take_replicate, wideBytes_replicate]
  constructor
  · intro w hw
    rw [List.eq_of_mem_replicate hw]
    decide
  · intro m
    refine ⟨List.replicate (min m n) 97, ?_, min m n, ?_, ?_, ?_, ?_⟩
    · have hall : (List.replicate n 97).all (· < 128) = true := by simp
      simp only [CLib.ascii, hall, if_true, List.take_replicate, List.map_replicate]
      rfl
    · simp
    · rw [htake, min_assoc, min_self]
    · simp
    · intro j hj hlen
      rw [htake, List.length_replicate] at hlen
      rw [List.length_replicate] at hj
      omega

/-- Three letters are printed. -/
theorem converterSingle_wideString_letters :
    WholeText CLib.ascii (fun w => [UInt8.ofNat w]) []
      { flags := { longint := true }, terminal := 's' } wideArg 0 (-1)
      (.new (lettersMem 3) 64 16) := by
  have hws : wideString (lettersMem 3) 0 = List.replicate 3 97 :=
    wideString_lettersMem (by norm_num)
  refine (converterSingle_wideString rfl rfl [] rfl 0 (-1) _ ?_).mpr ⟨fun h => ?_, .inr ?_⟩
  · show ConvertsWide CLib.ascii _ (wideString (lettersMem 3) 0)
    rw [hws]
    exact convertsWide_letters 3
  · exact absurd h (by decide)
  · intro k hk
    have hmem : wideString ((OutbufArg.new (lettersMem 3) 64 16).write (literalText []
        { flags := { longint := true }, terminal := 's' })).mem wideArg.address =
          List.replicate 3 97 := hws
    rw [hmem, List.take_replicate, wideBytes_replicate, List.length_replicate, stackMemorySize]
    omega

/-- A thousand letters: the '\0' is stored behind the array. -/
theorem converterSingle_thousandLetters :
    ConvertsWide CLib.ascii (fun w => [UInt8.ofNat w]) (wideString (lettersMem 1000) 0) ∧
      ¬WholeText CLib.ascii (fun w => [UInt8.ofNat w]) []
        { flags := { longint := true }, terminal := 's' } wideArg 0 (-1)
        (.new (lettersMem 1000) 8192 16) := by
  have hws := wideString_lettersMem (n := 1000) (by norm_num)
  have hconverts := convertsWide_letters 1000
  constructor
  · rw [hws]
    exact hconverts
  · intro h
    obtain ⟨text, htext, hlongest⟩ := hconverts.wcsrtombs_eq (wideRoom (-1))
    have hmem : ((OutbufArg.new (lettersMem 1000) 8192 16).write (literalText []
        { flags := { longint := true }, terminal := 's' })).mem = lettersMem 1000 := by
      rw [show literalText [] { flags := { longint := true }, terminal := 's' } = [] from rfl,
        OutbufArg.write_nil]
      rfl
    have hstores := h.stores_lt
    rw [hmem, show wideArg.address = 0 from rfl, hws] at hstores
    rcases (stores_lt_iff htext hlongest).mp hstores with hP | hk
    · exact absurd hP.1 (by decide)
    · have hlen : (List.replicate 1000 97).length = 1000 := List.length_replicate
      refine hk 1000 hlen.ge ?_
      rw [List.take_of_length_le hlen.le, wideBytes_replicate, List.length_replicate,
        stackMemorySize]

end ConstexprFmtStr
