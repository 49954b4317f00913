import Mathlib.Tactic
import ConstexprFmtStr.Format.IntegerShape

/-!
`formatDec`, `formatOct` and `formatHex` in their buffers.

* `storeShort`, `encodeLoop`: the stores of the three functions, two characters at a time, from
  the end of the buffer down. `formatDecIn`, `formatOctIn`, `formatHexIn`, `pointerIn`.
* `encodeLoop_eq`: what the loop leaves in the buffer, and where it stops.
* `IsNumeral`, `Encoded`: the numeral of a number at the end of a buffer. `encoders_exact`: all
  encoders leave one, and `pointerIn` its sixteen digits.
-/

namespace ConstexprFmtStr

open Numeral Word

/-! ### The functions -/

/-- `*reinterpret_cast<u_short*>(&buf[it]) = u;` of a little-endian machine, `none` outside of
the buffer. -/
def storeShort (buf : List UInt8) (it : ℤ) (u : ℕ) : Option (List UInt8) :=
  if 0 ≤ it ∧ it + 2 ≤ buf.length then
    some (buf.take it.toNat ++ leBytes 2 u ++ buf.drop (it.toNat + 2))
  else none

/-- The loop of the three functions and the store behind it: the buffer, and `it`. The table is
read at the second component of `split d` while the first, `div`, is not 0. `none` if it does
not end in so many turns, or leaves the table or the buffer. -/
def encodeLoop (digitPairs : List ℕ) (split : ℕ → ℕ × ℕ) (radix : ℕ) :
    ℕ → List UInt8 → ℤ → ℕ → Option (List UInt8 × ℤ)
  | 0, _, _, _ => none
  | fuel + 1, buf, it, d =>
      if (split d).1 ≠ 0 then do
        let u ← digitPairs[(split d).2]?
        let buf ← storeShort buf it u
        encodeLoop digitPairs split radix fuel buf (it - 2) (split d).1
      else do
        let u ← digitPairs[d]?
        let buf ← storeShort buf it u
        return (buf, if d < radix then it + 1 else it)

/-- More turns than any `uintmax_t` takes. -/
def encodeTurns : ℕ := 64

/-- `formatDec(buf, d)`. -/
def formatDecIn (buf : List UInt8) (d : ℕ) : Option (List UInt8 × ℤ) :=
  encodeLoop decDigitPairs (fun d => (d / 100, d - d / 100 * 100)) 10 encodeTurns buf
    (buf.length - 2) d

/-- `formatOct(buf, d)`. -/
def formatOctIn (buf : List UInt8) (d : ℕ) : Option (List UInt8 × ℤ) :=
  encodeLoop octDigitPairs (fun d => (d >>> 6, d &&& 0o77)) 8 encodeTurns buf
    (buf.length - 2) d

/-- `formatHex<T>(buf, d)`. -/
def formatHexIn (T : Char) (buf : List UInt8) (d : ℕ) : Option (List UInt8 × ℤ) :=
  encodeLoop (if T = 'X' then upperHexDigitPairs else lowerHexDigitPairs)
    (fun d => (d >>> 8, d &&& 0xff)) 16 encodeTurns buf (buf.length - 2) d

/-- `buf` in the branch of `%p`: sixteen zeros at its end, and the digits over them. -/
def pointerIn (buf : List UInt8) (ujval : ℕ) : Option (List UInt8) :=
  (formatHexIn 'X' (buf.take (buf.length - 16) ++ List.replicate 16 '0'.toUInt8) ujval).map
    Prod.fst

/-! ### The loop -/

/-- A store into the last two of the free bytes. -/
lemma storeShort_eq {front : List UInt8} (h : 2 ≤ front.length) (acc : List UInt8) (u : ℕ) :
    storeShort (front ++ acc) (front.length - 2) u =
      some (front.take (front.length - 2) ++ (leBytes 2 u ++ acc)) := by
  have hto : ((front.length : ℤ) - 2).toNat = front.length - 2 := by omega
  have hin : 0 ≤ (front.length : ℤ) - 2 ∧
      (front.length : ℤ) - 2 + 2 ≤ (front ++ acc).length := by
    rw [List.length_append]
    omega
  rw [storeShort, if_pos hin, hto, List.take_append_of_le_length (by omega),
    Nat.sub_add_cancel h, List.drop_left, List.append_assoc]

section

variable {digitPairs : List ℕ} {split : ℕ → ℕ × ℕ} {r : ℕ} {digit : ℕ → UInt8}

/-- The last turn of the loop. -/
lemma encodeLoop_last (hr : 1 < r) (hsplit : ∀ d, split d = (d / (r * r), d % (r * r)))
    (htable : ∀ i < r * r,
      (digitPairs[i]?).map (leBytes 2) = some [digit (i / r), digit (i % r)])
    (fuel : ℕ) {d : ℕ} (hd : d < r * r) {front : List UInt8} (hfront : 2 ≤ front.length)
    (acc : List UInt8) :
    ∃ n z, encodeLoop digitPairs split r (fuel + 1) (front ++ acc) (front.length - 2) d =
        some (front.take n ++ (List.replicate z (digit 0) ++ (shown digit r d ++ acc)),
          ((n + z : ℕ) : ℤ)) ∧
      n + z + (shown digit r d).length = front.length ∧ front.length ≤ n + 2 := by
  obtain ⟨u, hu, hbytes⟩ := Option.map_eq_some_iff.mp (htable d hd)
  simp only [encodeLoop, hsplit, Nat.div_eq_of_lt hd, ne_eq, not_true, if_false, hu,
    Option.bind_eq_bind, Option.bind_some, storeShort_eq hfront, hbytes, Option.pure_def]
  rw [shown_of_lt_sq digit hr hd]
  by_cases hsmall : d < r
  · refine ⟨front.length - 2, 1, ?_, ?_, by omega⟩
    · rw [if_pos hsmall, if_pos hsmall, Nat.div_eq_of_lt hsmall, Nat.mod_eq_of_lt hsmall]
      simp only [List.replicate_one, List.cons_append, List.nil_append]
      congr 2
      omega
    · rw [if_pos hsmall, List.length_singleton]
      omega
  · refine ⟨front.length - 2, 0, ?_, ?_, by omega⟩
    · rw [if_neg hsmall, if_neg hsmall]
      simp only [List.replicate_zero, List.nil_append]
      congr 2
      omega
    · rw [if_neg hsmall, List.length_cons, List.length_singleton]
      omega

/-- **The loop** leaves the numeral behind the bytes it has not used, and perhaps one zero
between them. -/
lemma encodeLoop_eq (hr : 1 < r) (hsplit : ∀ d, split d = (d / (r * r), d % (r * r)))
    (htable : ∀ i < r * r,
      (digitPairs[i]?).map (leBytes 2) = some [digit (i / r), digit (i % r)])
    {k fuel d : ℕ} (hd : d < (r * r) ^ k) (hk : 0 < k) (hfuel : k ≤ fuel) {front : List UInt8}
    (hfront : 2 * k ≤ front.length) (acc : List UInt8) :
    ∃ n z, encodeLoop digitPairs split r fuel (front ++ acc) (front.length - 2) d =
        some (front.take n ++ (List.replicate z (digit 0) ++ (shown digit r d ++ acc)),
          ((n + z : ℕ) : ℤ)) ∧
      n + z + (shown digit r d).length = front.length ∧ front.length ≤ n + 2 * k := by
  have hsq : 0 < r * r := by positivity
  induction k generalizing fuel d front acc with
  | zero => exact absurd hk (lt_irrefl 0)
  | succ k ih =>
      obtain ⟨fuel, rfl⟩ : ∃ m, fuel = m + 1 := ⟨fuel - 1, by omega⟩
      by_cases hdiv : d / (r * r) = 0
      · have hlt : d < r * r := by
          rcases Nat.div_eq_zero_iff.mp hdiv with h0 | hlt
          · exact absurd h0 hsq.ne'
          · exact hlt
        obtain ⟨n, z, heq, hsum, hle⟩ := encodeLoop_last hr hsplit htable fuel hlt
          (by omega : 2 ≤ front.length) acc
        exact ⟨n, z, heq, hsum, by omega⟩
      · have hquot : d / (r * r) < (r * r) ^ k := by
          rw [Nat.div_lt_iff_lt_mul hsq, ← pow_succ]
          exact hd
        have hpos : 0 < k := by
          by_contra h0
          rw [Nat.eq_zero_of_not_pos h0, pow_zero, Nat.lt_one_iff] at hquot
          exact hdiv hquot
        have hlen : (front.take (front.length - 2)).length = front.length - 2 := by
          rw [List.length_take]
          omega
        obtain ⟨u, hu, hbytes⟩ := Option.map_eq_some_iff.mp (htable _ (Nat.mod_lt d hsq))
        have hfuel' : k ≤ fuel := by omega
        have hfront' : 2 * k ≤ (front.take (front.length - 2)).length := by omega
        obtain ⟨n, z, heq, hsum, hle⟩ := ih hquot hpos hfuel' hfront' (leBytes 2 u ++ acc)
        have hit : ((front.take (front.length - 2)).length : ℤ) - 2 = front.length - 2 - 2 := by
          rw [hlen]
          omega
        rw [hit, hbytes, List.take_take, min_eq_left (by omega)] at heq
        rw [hlen] at hsum hle
        refine ⟨n, z, ?_, ?_, by omega⟩
        · simp only [encodeLoop, hsplit, hdiv, ne_eq, not_false_iff, if_true, hu,
            Option.bind_eq_bind, Option.bind_some, storeShort_eq (by omega : 2 ≤ front.length),
            hbytes]
          rw [heq, shown_step_pair digit hr hdiv, List.append_assoc]
        · rw [shown_step_pair digit hr hdiv, List.length_append, List.length_cons,
            List.length_singleton]
          omega

end

/-! ### The tables -/

/-- A byte of a digit. -/
def digitByte (upper : Bool) (i : ℕ) : UInt8 := (digitChar upper i).toUInt8

/-- A table entry, low byte first, is the text of the entry. -/
lemma map_leBytes_of_pairText {digitPairs : List ℕ} (hshort : ∀ u ∈ digitPairs, u < 2 ^ 16)
    {i : ℕ} (hi : i < digitPairs.length) {c c' : Char} (h : pairText digitPairs i = [c, c']) :
    (digitPairs[i]?).map (leBytes 2) = some [c.toUInt8, c'.toUInt8] := by
  have hbyte : ∀ n < 256, (Char.ofNat n).toUInt8 = UInt8.ofNat n := by decide +kernel
  have hget : digitPairs[i]? = some (digitPairs.getD i 0) := by
    rw [List.getD_eq_getElem?_getD, List.getElem?_eq_getElem hi, Option.getD_some]
  have hu := hshort _ (List.mem_of_getElem? hget)
  obtain ⟨u, hdef⟩ : ∃ u, digitPairs.getD i 0 = u := ⟨_, rfl⟩
  rw [hdef] at hget hu
  rw [pairText, hdef] at h
  obtain ⟨hc, htail⟩ := List.cons.inj h
  have hlow : UInt8.ofNat u = UInt8.ofNat (u % 256) := by
    apply UInt8.toNat_inj.mp
    rw [UInt8.toNat_ofNat', UInt8.toNat_ofNat']
    omega
  rw [hget, Option.map_some, ← hc, ← (List.cons.inj htail).1, hbyte _ (Nat.mod_lt u (by decide)),
    hbyte _ (by omega), leBytes, leBytes, leBytes, hlow]

lemma split_shift (k d : ℕ) : (d >>> k, d &&& (2 ^ k - 1)) = (d / 2 ^ k, d % 2 ^ k) := by
  rw [Nat.shiftRight_eq_div_pow, Nat.and_two_pow_sub_one_eq_mod]

/-! ### The text at the end -/

/-- An encoder has stored in the buffer only, and the range it returns is a text, with room for
a prefix of two characters in front of it. -/
def Leaves (buf : List UInt8) (result : Option (List UInt8 × ℤ)) (text : List Char) : Prop :=
  ∃ (out : List UInt8) (it : ℕ), result = some (out, (it : ℤ)) ∧ out.length = buf.length ∧
    2 ≤ it ∧ out.drop it = charBytes text

lemma shown_digitByte (upper : Bool) (r d : ℕ) :
    shown (digitByte upper) r d = charBytes (shown (digitChar upper) r d) := by
  rw [shown, shown]
  split_ifs
  · rfl
  · rw [charBytes, List.map_map]
    rfl

/-- A table with its shift or division, for all of `uintmax_t`. -/
lemma encodeLoop_shown {digitPairs : List ℕ} {split : ℕ → ℕ × ℕ} {r k : ℕ} {upper : Bool}
    (hr : 1 < r) (hsplit : ∀ d, split d = (d / (r * r), d % (r * r)))
    (htable : ∀ i < r * r, pairText digitPairs i = [digitChar upper (i / r),
      digitChar upper (i % r)])
    (hshort : ∀ u ∈ digitPairs, u < 2 ^ 16) (hlen : digitPairs.length = r * r)
    (hk : 0 < k) (hk' : k ≤ encodeTurns) (hpow : 2 ^ 64 ≤ (r * r) ^ k) {buf : List UInt8}
    (hbuf : 2 * k ≤ buf.length) {d : ℕ} (hd : d < 2 ^ 64) :
    ∃ n z, encodeLoop digitPairs split r encodeTurns buf (buf.length - 2) d =
        some (buf.take n ++ (List.replicate z '0'.toUInt8 ++
          charBytes (shown (digitChar upper) r d)), ((n + z : ℕ) : ℤ)) ∧
      n + z + (shown (digitChar upper) r d).length = buf.length ∧ buf.length ≤ n + 2 * k := by
  have hbytes : ∀ i < r * r, (digitPairs[i]?).map (leBytes 2) =
      some [digitByte upper (i / r), digitByte upper (i % r)] :=
    fun i hi => map_leBytes_of_pairText hshort (hlen ▸ hi) (htable i hi)
  obtain ⟨n, z, heq, hsum, hle⟩ := encodeLoop_eq hr hsplit hbytes (hd.trans_le hpow) hk hk'
    hbuf []
  rw [List.append_nil, List.append_nil, shown_digitByte] at heq
  rw [shown_digitByte, length_charBytes] at hsum
  exact ⟨n, z, heq, hsum, hle⟩

/-- The text is behind the zero that is not counted. -/
lemma leaves_of_eq {buf : List UInt8} {result : Option (List UInt8 × ℤ)} {text : List Char}
    {n z : ℕ} (heq : result = some (buf.take n ++ (List.replicate z '0'.toUInt8 ++
      charBytes text), ((n + z : ℕ) : ℤ)))
    (hsum : n + z + text.length = buf.length) (hroom : 2 ≤ n) : Leaves buf result text := by
  have htake : (buf.take n).length = n := by
    rw [List.length_take]
    omega
  refine ⟨_, n + z, heq, ?_, by omega, ?_⟩
  · simp only [List.length_append, htake, List.length_replicate, length_charBytes]
    omega
  · rw [← List.append_assoc, List.drop_left' (by simp [htake])]

section

variable {buf : List UInt8} {d : ℕ}

lemma leaves_formatDecIn (hbuf : 32 ≤ buf.length) (hd : d < 2 ^ 64) :
    Leaves buf (formatDecIn buf d) (formatDec d) := by
  have hroom : 2 * 10 ≤ buf.length := by omega
  have hsplit (d : ℕ) : (d / 100, d - d / 100 * 100) = (d / (10 * 10), d % (10 * 10)) :=
    Prod.ext rfl (by dsimp only; omega)
  obtain ⟨n, z, heq, hsum, hle⟩ := encodeLoop_shown (by norm_num) hsplit decDigitPairs_eq
    (by decide +kernel) rfl (by norm_num) (by decide) (by norm_num) hroom hd
  rw [← formatDec_eq hd] at heq hsum
  exact leaves_of_eq heq hsum (by omega)

lemma leaves_formatOctIn (hbuf : 32 ≤ buf.length) (hd : d < 2 ^ 64) :
    Leaves buf (formatOctIn buf d) (formatOct d) := by
  have hroom : 2 * 11 ≤ buf.length := by omega
  obtain ⟨n, z, heq, hsum, hle⟩ := encodeLoop_shown (by norm_num) (split_shift 6)
    octDigitPairs_eq (by decide +kernel) rfl (by norm_num) (by decide) (by norm_num) hroom hd
  rw [← formatOct_eq hd] at heq hsum
  exact leaves_of_eq heq hsum (by omega)

/-- The two tables of `formatHex`. -/
lemma formatHexIn_eq (T : Char) (hbuf : 16 ≤ buf.length) (hd : d < 2 ^ 64) :
    ∃ n z, formatHexIn T buf d = some (buf.take n ++ (List.replicate z '0'.toUInt8 ++
        charBytes (formatHex T d)), ((n + z : ℕ) : ℤ)) ∧
      n + z + (formatHex T d).length = buf.length ∧ buf.length ≤ n + 2 * 8 := by
  rw [formatHexIn, formatHex_eq hd]
  by_cases hT : T = 'X'
  · rw [if_pos hT, hT]
    exact encodeLoop_shown (by norm_num) (split_shift 8) upperHexDigitPairs_eq
      (by decide +kernel) (by decide +kernel) (by norm_num) (by decide) (by norm_num) (by omega) hd
  · rw [if_neg hT, beq_false_of_ne hT]
    exact encodeLoop_shown (by norm_num) (split_shift 8) lowerHexDigitPairs_eq
      (by decide +kernel) (by decide +kernel) (by norm_num) (by decide) (by norm_num) (by omega) hd

lemma leaves_formatHexIn (T : Char) (hbuf : 32 ≤ buf.length) (hd : d < 2 ^ 64) :
    Leaves buf (formatHexIn T buf d) (formatHex T d) := by
  obtain ⟨n, z, heq, hsum, hle⟩ := formatHexIn_eq T (by omega : 16 ≤ buf.length) hd
  exact leaves_of_eq heq hsum (by omega)

/-- The digits of an address lie over the zeros. -/
lemma pointerIn_eq (hbuf : 32 ≤ buf.length) (hd : d < 2 ^ 64) :
    (formatHex 'X' d).length ≤ 16 ∧
      pointerIn buf d = some (buf.take (buf.length - 16) ++ charBytes (pointerText d)) := by
  obtain ⟨filled, hfilled⟩ : ∃ filled,
      buf.take (buf.length - 16) ++ List.replicate 16 '0'.toUInt8 = filled := ⟨_, rfl⟩
  have htake : (buf.take (buf.length - 16)).length = buf.length - 16 := by
    rw [List.length_take]
    omega
  have hlen : filled.length = buf.length := by
    rw [← hfilled, List.length_append, htake, List.length_replicate]
    omega
  obtain ⟨n, z, heq, hsum, hle⟩ := formatHexIn_eq 'X' (by omega : 16 ≤ filled.length) hd
  have hpos : 0 < (formatHex 'X' d).length := by
    rw [formatHex_eq hd]
    exact length_shown_pos _ _ _
  -- the bytes that the loop has not used are zeros of the fill
  have hfront : filled.take n = buf.take (buf.length - 16) ++
      List.replicate (n - (buf.length - 16)) '0'.toUInt8 := by
    rw [← hfilled, List.take_append, htake, List.take_of_length_le (by rw [htake]; omega),
      List.take_replicate, min_eq_left (by omega)]
  have hzeros : 16 - (formatHex 'X' d).length = n - (buf.length - 16) + z := by omega
  refine ⟨by omega, ?_⟩
  rw [pointerIn, hfilled, heq, Option.map_some, hfront, pointerText, hzeros, charBytes_append,
    charBytes_replicate, List.replicate_add]
  simp only [List.append_assoc]

end

/-! ### The numeral -/

/-- The canonical numeral of `d` in base `r`: digits that read back, with no zero in front but
the one of 0. -/
structure IsNumeral (upper : Bool) (r d : ℕ) (text : List Char) : Prop where
  digits : ∀ c ∈ text, ∃ i < r, c = digitChar upper i
  value_eq : valueOf digitValue r text = d
  zero_eq : d = 0 → text = ['0']
  head_ne : d ≠ 0 → text.head? ≠ some '0'

/-- What is shown is the canonical numeral. -/
lemma isNumeral_shown (upper : Bool) {r : ℕ} (hr : 1 < r) (hr' : r ≤ 16) (d : ℕ) :
    IsNumeral upper r d (shown (digitChar upper) r d) where
  digits c hc := mem_shown hr hc
  value_eq := valueOf_shown hr (fun _ hi => digitValue_digitChar upper (hi.trans_le hr')) d
  zero_eq h := by
    rw [shown, if_pos h]
    rfl
  head_ne h := by
    obtain ⟨i, hpos, hi, hhead⟩ := head?_shown (digitChar upper) hr h
    rw [hhead]
    intro hzero
    exact (digitChar_ne upper (hi.trans_le hr')).2.2.2 hpos (Option.some.inj hzero)

/-- The numeral of a number at the end of the buffer. -/
def Encoded (buf : List UInt8) (result : Option (List UInt8 × ℤ)) (upper : Bool) (r d : ℕ) :
    Prop := ∃ text, Leaves buf result text ∧ IsNumeral upper r d text

/-- The sixteen digits of a number at the end of the buffer, and nothing else in it changed. -/
def EncodedPointer (buf : List UInt8) (result : Option (List UInt8)) (d : ℕ) : Prop :=
  ∃ text, IsNumeral true 16 d text ∧ text.length ≤ 16 ∧
    result = some (buf.take (buf.length - 16) ++
      charBytes (List.replicate (16 - text.length) '0' ++ text))

/-- **The encoders.** -/
theorem encoders_exact {buf : List UInt8} (hbuf : 32 ≤ buf.length) {d : ℕ} (hd : d < 2 ^ 64) :
    Encoded buf (formatDecIn buf d) false 10 d ∧ Encoded buf (formatOctIn buf d) false 8 d ∧
      Encoded buf (formatHexIn 'x' buf d) false 16 d ∧
      Encoded buf (formatHexIn 'X' buf d) true 16 d ∧ EncodedPointer buf (pointerIn buf d) d := by
  have hdec : IsNumeral false 10 d (formatDec d) := by
    rw [formatDec_eq hd]
    exact isNumeral_shown false (by norm_num) (by norm_num) d
  have hoct : IsNumeral false 8 d (formatOct d) := by
    rw [formatOct_eq hd]
    exact isNumeral_shown false (by norm_num) (by norm_num) d
  have hhex (T : Char) : IsNumeral (T == 'X') 16 d (formatHex T d) := by
    rw [formatHex_eq hd]
    exact isNumeral_shown _ (by norm_num) (by norm_num) d
  obtain ⟨hlen, hpointer⟩ := pointerIn_eq hbuf hd
  exact ⟨⟨_, leaves_formatDecIn hbuf hd, hdec⟩, ⟨_, leaves_formatOctIn hbuf hd, hoct⟩,
    ⟨_, leaves_formatHexIn 'x' hbuf hd, hhex 'x'⟩, ⟨_, leaves_formatHexIn 'X' hbuf hd, hhex 'X'⟩,
    ⟨_, hhex 'X', hlen, hpointer⟩⟩

/-- The encoders in a buffer of the size that the code uses. -/
theorem encoders_exact_sample :
    32 ≤ (List.replicate 32 (0 : UInt8)).length ∧ 255 < 2 ^ 64 ∧
      Encoded (List.replicate 32 0) (formatDecIn (List.replicate 32 0) 255) false 10 255 :=
  ⟨by decide, by decide, (encoders_exact (by decide) (by decide)).1⟩

end ConstexprFmtStr
