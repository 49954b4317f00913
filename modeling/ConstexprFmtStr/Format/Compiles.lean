import Mathlib.Tactic
import ConstexprFmtStr.Format.Compose

/-!
Which calls compile.

* `fitsInt_cons_iff`: the numbers of a specifier fit if that of its first token does and those of
  the rest do.
* `specLoop_overflow`, `getOneSpec_overflow`: where one does not fit, the constant evaluation ends
  with an overflow.
* `specInfos_overflow`: so the pack of a format with such a number is an overflow, and no other
  error.
* `cfmtStrOutbufArg_compiles`: `CFMT_STR` compiles exactly if every width and precision fits, there
  are enough arguments, and every `%n` can cast its own.
-/

namespace ConstexprFmtStr

/-! ### The numbers in a specifier -/

lemma numeralFrom_mono {v v' : ℤ} (h : v ≤ v') (ds : List Char) :
    numeralFrom v ds ≤ numeralFrom v' ds := by
  induction ds generalizing v v' with
  | nil => exact h
  | cons d ds ih => exact ih (show 10 * v + toDigit d ≤ 10 * v' + toDigit d by omega)

/-- Without its first digits a numeral is not larger. -/
lemma numeralFrom_drop_le {ds : List Char} (hds : ∀ d ∈ ds, isDigit d = true) (j : ℕ) :
    numeralFrom 0 (ds.drop j) ≤ numeralFrom 0 ds := by
  have htake : 0 ≤ numeralFrom 0 (ds.take j) :=
    le_numeralFrom le_rfl fun d hd => hds d (List.mem_of_mem_take hd)
  calc numeralFrom 0 (ds.drop j)
      ≤ numeralFrom (numeralFrom 0 (ds.take j)) (ds.drop j) := numeralFrom_mono htake _
    _ = numeralFrom 0 (ds.take j ++ ds.drop j) := List.foldl_append.symm
    _ = numeralFrom 0 ds := by rw [List.take_append_drop]

/-- The digits from some digit on. -/
lemma takeWhile_drop (cs : List Char) {j : ℕ} (hj : j ≤ (cs.takeWhile isDigit).length) :
    (cs.drop j).takeWhile isDigit = (cs.takeWhile isDigit).drop j := by
  induction cs generalizing j with
  | nil => simp
  | cons c cs ih =>
      cases j with
      | zero => rfl
      | succ j =>
          by_cases hc : isDigit c = true
          · rw [List.takeWhile_cons_of_pos hc, List.length_cons] at hj
            rw [List.takeWhile_cons_of_pos hc, List.drop_succ_cons, List.drop_succ_cons,
              ih (by omega)]
          · rw [List.takeWhile_cons_of_neg hc] at hj
            exact absurd hj (by simp)

/-- The numbers that are written from some place on. -/
lemma fitsInt_iff_drop {w : List Char} :
    FitsInt w ↔ ∀ j, numeralFrom 0 ((w.drop j).takeWhile isDigit) ≤ intMax := by
  refine ⟨fun h j => (h.suffix (List.drop_suffix j w)).digits, fun h s hs => ?_⟩
  have hsuffix := (List.mem_tails _ _).mp hs
  rw [List.suffix_iff_eq_drop.mp hsuffix]
  exact h _

lemma numeral_of_not_digit {c : Char} (hc : isDigit c = false) (cs : List Char) :
    numeralFrom 0 ((c :: cs).takeWhile isDigit) ≤ intMax := by
  rw [List.takeWhile_cons_of_neg (by simp [hc])]
  decide

/-- **The numbers of a specifier** are those of its tokens. -/
lemma fitsInt_cons_iff {c : Char} (hc : isSpecChar c = true) (cs : List Char) (f : SpecFields) :
    FitsInt (c :: cs) ↔ TokenFits c cs ∧ FitsInt (cs.drop (readToken c cs f).2) := by
  refine ⟨fun h => ⟨h.token, h.suffix ((List.drop_suffix _ _).trans (List.suffix_cons _ _))⟩,
    fun ⟨htoken, hrest⟩ => ?_⟩
  -- what begins in front of the rest begins in the token
  have hcs (hin : ∀ j < (readToken c cs f).2,
      numeralFrom 0 ((cs.drop j).takeWhile isDigit) ≤ intMax) : FitsInt cs := by
    refine fitsInt_iff_drop.mpr fun j => ?_
    by_cases hj : j < (readToken c cs f).2
    · exact hin j hj
    · have hle := fitsInt_iff_drop.mp hrest (j - (readToken c cs f).2)
      rwa [List.drop_drop, Nat.add_sub_cancel' (not_lt.mp hj)] at hle
  have hfirst (hcs : FitsInt cs) (hhead : numeralFrom 0 ((c :: cs).takeWhile isDigit) ≤ intMax) :
      FitsInt (c :: cs) := by
    refine fitsInt_iff_drop.mpr fun j => ?_
    cases j with
    | zero => exact hhead
    | succ j => exact fitsInt_iff_drop.mp hcs j
  have hdigits (hle : numeralFrom 0 (cs.takeWhile isDigit) ≤ intMax) {j : ℕ}
      (hj : j < (cs.takeWhile isDigit).length) :
      numeralFrom 0 ((cs.drop j).takeWhile isDigit) ≤ intMax := by
    rw [takeWhile_drop cs hj.le]
    exact (numeralFrom_drop_le (fun d hd => List.mem_takeWhile_imp hd) j).trans hle
  have hletter {x : Char} (hx : cs.head? = some x) (hdigit : isDigit x = false) {j : ℕ}
      (hj : j < 1) : numeralFrom 0 ((cs.drop j).takeWhile isDigit) ≤ intMax := by
    obtain rfl : j = 0 := by omega
    cases cs with
    | nil => exact absurd hx (by simp)
    | cons y ys =>
        obtain rfl : y = x := by simpa using hx
        exact numeral_of_not_digit hdigit ys
  induction c, hc using specChar_cases with
  | alone c hspec hmem =>
      have hall : FitsInt cs := hcs fun j hj => by
        have hzero : (readToken c cs f).2 = 0 := by
          fin_cases hmem <;> simp [readToken, isDigit]
        omega
      refine hfirst hall ?_
      by_cases hdigit : isDigit c = true
      · -- a flag '0' does not change the number behind it
        have hc : c = '0' := by
          fin_cases hmem <;> first | rfl | exact absurd hdigit (by decide)
        subst hc
        exact hall.digits
      · exact numeral_of_not_digit (by simpa using hdigit) cs
  | point hspec =>
      refine hfirst (hcs fun j hj => ?_) (numeral_of_not_digit (by decide) cs)
      by_cases hstar : cs.head? = some '*'
      · simp only [readToken, hstar] at hj
        exact hletter hstar (by decide) (by simpa using hj)
      · simp only [readToken, hstar] at hj
        exact hdigits (htoken.1 rfl) (by simpa using hj)
  | h hspec =>
      refine hfirst (hcs fun j hj => ?_) (numeral_of_not_digit (by decide) cs)
      by_cases hh : cs.head? = some 'h'
      · exact hletter hh (by decide) (by simpa [readToken, hh, isDigit] using hj)
      · exact absurd hj (by simp [readToken, hh, isDigit])
  | l hspec =>
      refine hfirst (hcs fun j hj => ?_) (numeral_of_not_digit (by decide) cs)
      by_cases hl : cs.head? = some 'l'
      · exact hletter hl (by decide) (by simpa [readToken, hl, isDigit] using hj)
      · exact absurd hj (by simp [readToken, hl, isDigit])
  | digit c hspec hdigit hzero =>
      obtain ⟨-, h1, h2, h3, h4, h5, h6⟩ := digit_facts hdigit hzero
      have hwidth := htoken.2 hdigit hzero
      have hlast : numeralFrom 0 (cs.takeWhile isDigit) ≤ intMax := by
        have hall : ∀ d ∈ c :: cs.takeWhile isDigit, isDigit d = true := by
          intro d hd
          rcases List.mem_cons.mp hd with rfl | hd
          · exact hdigit
          · exact List.mem_takeWhile_imp hd
        exact (numeralFrom_drop_le hall 1).trans hwidth
      refine hfirst (hcs fun j hj => hdigits hlast ?_) ?_
      · simpa [readToken, hdigit, hzero, h1, h2, h3, h4, h5, h6] using hj
      · rwa [List.takeWhile_cons_of_pos hdigit]

/-! ### Overflow -/

section Overflow

variable {fmt : List Char} {pos fuel : ℕ} {f : SpecFields}

/-- The digit loop overflows at the first digit that makes the value too large. -/
lemma readDigits_overflow {ds rest : List Char} {v : ℤ} (h : fmt.drop pos = ds ++ rest)
    (hds : ∀ d ∈ ds, isDigit d = true) (hv : v ≤ intMax) (hbig : intMax < numeralFrom v ds) :
    readDigits fmt pos v = .error .overflow := by
  rw [readDigits, h]
  clear h
  induction ds generalizing pos v with
  | nil => exact absurd hbig (not_lt.mpr hv)
  | cons d ds ih =>
      rw [List.cons_append, readDigitsFrom, if_pos (hds d List.mem_cons_self)]
      split_ifs with hnext
      · rfl
      · exact ih (fun x hx => hds x (List.mem_cons_of_mem _ hx)) (not_lt.mp hnext) hbig

/-- A token whose number does not fit. -/
lemma switchSpec_overflow {c : Char} {cs : List Char} {t : Char} {rest : List Char}
    (h : fmt.drop pos = c :: (cs ++ t :: rest)) (ht : isTerminal t = true)
    (hfit : ¬TokenFits c cs) : switchSpec fmt pos f = .error .overflow := by
  obtain ⟨d, rest', heq, -⟩ := exists_not_digit cs rest ht
  have hdigits : ∀ x ∈ cs.takeWhile isDigit, isDigit x = true := fun x hx =>
    List.mem_takeWhile_imp hx
  have hmax : (0 : ℤ) ≤ intMax := by decide
  rw [TokenFits, not_and_or] at hfit
  rcases hfit with hpoint | hwidth
  · obtain ⟨rfl, hbig⟩ := Classical.not_imp.mp hpoint
    rw [not_le] at hbig
    have hstar : cs.head?.getD t ≠ '*' := by
      intro hx
      cases cs with
      | nil =>
          obtain rfl : t = '*' := hx
          exact absurd ht (by decide)
      | cons y ys =>
          obtain rfl : y = '*' := hx
          exact absurd hbig (not_lt.mpr (numeral_of_not_digit (by decide) ys))
    have hprec : readDigits fmt (pos + 1) 0 = .error .overflow :=
      readDigits_overflow ((drop_succ h).trans heq) hdigits hmax hbig
    simp [switchSpec, charAt_of_drop h, charAt_succ h, hstar, hprec]
    rfl
  · obtain ⟨hdigit, hrest⟩ := Classical.not_imp.mp hwidth
    obtain ⟨hzero, hbig⟩ := Classical.not_imp.mp hrest
    rw [not_le] at hbig
    obtain ⟨-, h1, h2, h3, h4, h5, h6⟩ := digit_facts hdigit hzero
    have hread : readDigits fmt pos 0 = .error .overflow := by
      have hdrop : fmt.drop pos = c :: cs.takeWhile isDigit ++ d :: rest' := by
        rw [h, heq, List.cons_append]
      refine readDigits_overflow hdrop (fun x hx => ?_) hmax hbig
      rcases List.mem_cons.mp hx with rfl | hx
      · exact hdigit
      · exact hdigits x hx
    simp [switchSpec, charAt_of_drop h, hread, hdigit, hzero, h1, h2, h3, h4, h5, h6]
    rfl

/-- A specifier with a number that does not fit. -/
lemma specLoop_overflow {w : List Char} {t : Char} {rest : List Char}
    (h : fmt.drop pos = w ++ t :: rest) (hw : IsWord w) (ht : isTerminal t = true)
    (hfit : ¬FitsInt w) (hfuel : w.length < fuel) :
    specLoop fmt fuel pos f = .error .overflow := by
  obtain ⟨fuel, rfl⟩ : ∃ k, fuel = k + 1 := ⟨fuel - 1, by omega⟩
  induction hn : w.length using Nat.strong_induction_on generalizing w pos fuel f with
  | _ n ih =>
    cases w with
    | nil => exact absurd (fitsInt_iff_drop.mpr fun j => by simp [numeralFrom, intMax]) hfit
    | cons c cs =>
        have hc := hw c List.mem_cons_self
        by_cases htoken : TokenFits c cs
        · have hd : fmt.drop (pos + 1) = cs ++ t :: rest := drop_succ h
          have hle := readToken_le hc cs f
          have hsuffix : cs.drop (readToken c cs f).2 <:+ c :: cs :=
            (List.drop_suffix _ _).trans (List.suffix_cons _ _)
          have hlen : (cs.drop (readToken c cs f).2).length < n := by
            rw [← hn, List.length_drop, List.length_cons]
            omega
          have hnext : fmt.drop (pos + (readToken c cs f).2 + 1) =
              cs.drop (readToken c cs f).2 ++ t :: rest := by
            rw [Nat.add_right_comm, ← List.drop_drop, hd, List.drop_append_of_le_length hle]
          have hrest : ¬FitsInt (cs.drop (readToken c cs f).2) := fun hrest =>
            hfit ((fitsInt_cons_iff hc cs f).mpr ⟨htoken, hrest⟩)
          obtain ⟨fuel, rfl⟩ : ∃ k, fuel = k + 1 := ⟨fuel - 1, by simp at hfuel; omega⟩
          rw [specLoop, switchSpec_token h hw ht htoken, Scan.ok_bind]
          simp only [Bool.false_eq_true, if_false]
          exact ih _ hlen hnext (hw.suffix hsuffix) hrest fuel
            (by rw [List.length_drop]; simp at hfuel; omega) rfl
        · rw [specLoop, switchSpec_overflow h ht htoken]
          rfl

end Overflow

section Formats

variable {s : List Char}

/-- **`getOneSpec`** ends with an overflow at a specifier with a number that does not fit. -/
lemma getOneSpec_overflow (hs : nul ∉ s) {i : ℕ} {w : List Char} {t : Char}
    (hspec : specAt (scan s) i = some (w, t)) (hfit : ¬FitsInt w)
    (hi : i ≤ (scan s).countP Piece.isSpec) :
    getOneSpec (s ++ [nul]) i = .error .overflow := by
  have hreads := reads_scan hs
  obtain ⟨s', pos, inv, b, hskip, hreads', hdrop, hle, hpos, hb⟩ :=
    skipSpecs_eq hreads hi (show (s ++ [nul]).drop 0 = s ++ [nul] from List.drop_zero)
      (show s.length < (s ++ [nul]).length by simp) le_rfl
      (show 0 + (squeezed (scan s)).length = (squeezed (scan s)).length + 0 by omega)
      (show i = 0 → 0 + (squeezed (scan s)).length = (squeezed (scan s)).length by omega)
  obtain ⟨q, hnext, hword⟩ := nextSpec_eq (q := 0) hreads' hdrop
    (show s'.length < (s ++ [nul]).length by rw [List.length_append]; simp; omega)
    (show inv ≤ pos by omega)
  have hfirst : firstSpec (afterSpecs (scan s) i) = some (w, t) := hspec
  obtain ⟨hw, ht⟩ := hreads.mem_spec ((afterSpecs_suffix _ _).subset (firstSpec_mem hfirst))
  obtain ⟨rest, hrest⟩ := hword w t hfirst
  have hwlen : w.length < (s ++ [nul]).length := by
    have hlen := congrArg List.length hrest
    simp only [List.length_drop, List.length_append, List.length_cons] at hlen ⊢
    omega
  rw [getOneSpec, hskip, Scan.ok_bind]
  simp only [hnext, hfirst, Scan.ok_bind, Option.isNone_some, Bool.false_eq_true, if_false,
    specLoop_overflow (f := {}) hrest hw ht hfit hwlen]
  rfl

/-- A specifier of the scan with a number that does not fit. -/
lemma exists_specAt {ps : List Piece} {p : Piece} (hp : p ∈ ps) (hfit : ¬p.FitsInt) :
    ∃ i w t, i ≤ ps.countP Piece.isSpec ∧ specAt ps i = some (w, t) ∧ ¬FitsInt w := by
  induction ps with
  | nil => exact absurd hp List.not_mem_nil
  | cons q ps ih =>
      cases q with
      | lit c =>
          have hmem : p ∈ ps := (List.mem_cons.mp hp).resolve_left fun heq =>
            hfit (heq ▸ trivial)
          obtain ⟨i, w, t, hi, hspec, hw⟩ := ih hmem
          refine ⟨i, w, t, by simpa using hi, ?_, hw⟩
          cases i with
          | zero =>
              rw [specAt, afterSpecs_zero] at hspec
              exact hspec
          | succ i => exact hspec
      | spec w t =>
          rcases List.mem_cons.mp hp with rfl | hmem
          · exact ⟨0, w, t, Nat.zero_le _, rfl, hfit⟩
          · obtain ⟨i, w', t', hi, hspec, hw'⟩ := ih hmem
            exact ⟨i + 1, w', t', by simpa using hi, hspec, hw'⟩

/-- The first error of a list of evaluations is an overflow, if there is no other. -/
lemma mapM_overflow {α β : Type*} {f : α → Scan β} {is : List α}
    (hall : ∀ i ∈ is, (∃ x, f i = .ok x) ∨ f i = .error .overflow)
    (hex : ∃ i ∈ is, f i = .error .overflow) : is.mapM f = .error .overflow := by
  induction is with
  | nil =>
      obtain ⟨i, hi, -⟩ := hex
      exact absurd hi List.not_mem_nil
  | cons i is ih =>
      rw [List.mapM_cons]
      rcases hall i List.mem_cons_self with ⟨x, hx⟩ | herr
      · obtain ⟨j, hj, hjerr⟩ := hex
        have hmem : j ∈ is := (List.mem_cons.mp hj).resolve_left fun heq => by
          rw [heq, hx] at hjerr
          cases hjerr
        rw [hx, ih (fun k hk => hall k (List.mem_cons_of_mem _ hk)) ⟨j, hmem, hjerr⟩]
        rfl
      · rw [herr]
        rfl

/-- **The pack** of a format with a number that does not fit. -/
lemma specInfos_overflow (hs : nul ∉ s) (hfit : ¬∀ p ∈ scan s, p.FitsInt) :
    specInfos (s ++ [nul]) = .error .overflow := by
  rw [specInfos, countValidSpecInfos_eq hs, Scan.ok_bind]
  refine mapM_overflow (fun i hi => ?_) ?_
  · have hle : i ≤ (scan s).countP Piece.isSpec := Nat.le_of_lt_succ (List.mem_range.mp hi)
    by_cases hall : ∀ w t, specAt (scan s) i = some (w, t) → FitsInt w
    · exact .inl ⟨_, getOneSpec_eq hs hall hle⟩
    · push Not at hall
      obtain ⟨w, t, hspec, hw⟩ := hall
      exact .inr (getOneSpec_overflow hs hspec hw hle)
  · push Not at hfit
    obtain ⟨p, hp, hnot⟩ := hfit
    obtain ⟨i, w, t, hi, hspec, hw⟩ := exists_specAt hp hnot
    exact ⟨i, List.mem_range.mpr (by omega), getOneSpec_overflow hs hspec hw hi⟩

/-- A call compiles if the checks of `Converter::convert` do. -/
lemma isSome_convertAll {SIs : List SpecInfo} (h : IsPack SIs) (lib : CLib) (fmt : List Char)
    (args : List Arg) (out : OutbufArg) :
    (convertAll lib fmt SIs args out).isSome = true ↔
      countArgsRequired SIs ≤ args.length ∧ castsCompile SIs (args.map Arg.type) = true := by
  rw [convertAll]
  split_ifs with hchecks
  · obtain ⟨ts, hts⟩ := exists_takeAll h hchecks.1
    rw [converterImpl_eq lib fmt h.ne_nil, hts]
    exact iff_of_true rfl hchecks
  · exact iff_of_false (by simp) hchecks

/-- The casts of a pack are those of its `%n`. -/
lemma castsCompile_iff_count {SIs : List SpecInfo} (h : IsPack SIs) {args : List Arg}
    (hargs : countArgsRequired SIs ≤ args.length) :
    castsCompile SIs (args.map Arg.type) = true ↔
      ∀ ts, takeAll SIs args = some ts → ∀ t ∈ ts, t.SI.terminal = 'n' →
        t.arg.type.toVoidPtr = true → t.arg.type.toIntPtr = true := by
  obtain ⟨ts, hts⟩ := exists_takeAll h hargs
  have hcast (t : Taken Arg) : castCompiles t.SI t.arg.type = true ↔
      (t.SI.terminal = 'n' → t.arg.type.toVoidPtr = true → t.arg.type.toIntPtr = true) := by
    by_cases hn : t.SI.terminal = 'n' <;> cases hp : t.arg.type.toVoidPtr <;>
      simp [castCompiles, hn, hp]
  rw [castsCompile_iff hts, hts]
  simp only [hcast, Option.some.injEq, forall_eq']

/-- **What compiles.** If every width and precision written in a format fits an `int`, the pack of
its specifiers is evaluated, and a call compiles exactly if it has the arguments that the
`static_assert` asks for and every pointer that a `%n` takes is one to what is not const. Otherwise
the constant evaluation ends with an overflow, and no call compiles. -/
theorem cfmtStrOutbufArg_compiles (_hlen : ((s ++ [nul]).length : ℤ) ≤ intMax) (hs : nul ∉ s) :
    ((∀ p ∈ scan s, p.FitsInt) → ∃ SIs, specInfos (s ++ [nul]) = .ok SIs ∧
        ∀ lib args out, (cfmtStrOutbufArg lib (s ++ [nul]) args out).isSome = true ↔
          countArgsRequired SIs ≤ args.length ∧
            ∀ ts, takeAll SIs args = some ts → ∀ t ∈ ts, t.SI.terminal = 'n' →
              t.arg.type.toVoidPtr = true → t.arg.type.toIntPtr = true) ∧
      ((¬∀ p ∈ scan s, p.FitsInt) → specInfos (s ++ [nul]) = .error .overflow ∧
        ∀ lib args out, cfmtStrOutbufArg lib (s ++ [nul]) args out = none) := by
  refine ⟨fun hfit => ⟨_, specInfos_eq hs hfit, fun lib args out => ?_⟩, fun hfit =>
    ⟨specInfos_overflow hs hfit, fun lib args out => ?_⟩⟩
  · have hpack := isPack_specInfos hs hfit (specInfos_eq hs hfit)
    rw [cfmtStrOutbufArg, specInfos_eq hs hfit, runTimeStr_eq hs]
    exact (isSome_convertAll hpack _ _ _ _).trans
      (and_congr_right fun hargs => castsCompile_iff_count hpack hargs)
  · rw [cfmtStrOutbufArg, specInfos_overflow hs hfit]

/-- "%d%n" compiles with 7 and a pointer, not with 7 alone, and not with 7 and a `const char*`;
"%2147483648d" has a width that does not fit. -/
theorem cfmtStrOutbufArg_compiles_samples :
    (∀ lib out, (cfmtStrOutbufArg lib ("%d%n".toList ++ [nul]) [IntSpec.intArg 7, countPtr]
        out).isSome = true) ∧
      (∀ lib out, ¬(cfmtStrOutbufArg lib ("%d%n".toList ++ [nul]) [IntSpec.intArg 7]
        out).isSome = true) ∧
      (∀ lib out, ¬(cfmtStrOutbufArg lib ("%d%n".toList ++ [nul]) [IntSpec.intArg 7, strArg 64]
        out).isSome = true) ∧
      specInfos ("%2147483648d".toList ++ [nul]) = .error .overflow := by
  obtain ⟨SIs, hSIs, hiff⟩ :=
    (cfmtStrOutbufArg_compiles (s := "%d%n".toList) (by decide) (by decide)).1 (by decide)
  have hpack : specInfos ("%d%n".toList ++ [nul]) =
      .ok [{ terminal := 'd' }, { begin_ := 2, end_ := 2, terminal := 'n' },
        { begin_ := 4, end_ := 4 }] := by decide
  obtain rfl := Except.ok.inj (hSIs.symm.trans hpack)
  refine ⟨fun lib out => (hiff lib _ out).mpr ⟨by decide, ?_⟩, fun lib out h => ?_,
    fun lib out h => ?_, ?_⟩
  · rintro ts hts t ht -
    obtain rfl := Option.some.inj hts
    simp only [List.mem_cons, List.not_mem_nil, or_false] at ht
    rcases ht with rfl | rfl <;> decide
  · exact absurd ((hiff lib _ out).mp h).1 (by decide)
  · exact absurd (((hiff lib _ out).mp h).2 _ rfl
      ⟨{ begin_ := 2, end_ := 2, terminal := 'n' }, [], strArg 64⟩
      (List.mem_cons_of_mem _ List.mem_cons_self) rfl rfl) (by decide)
  · exact ((cfmtStrOutbufArg_compiles (s := "%2147483648d".toList) (by decide) (by decide)).2
      (by decide)).1

end Formats

end ConstexprFmtStr
