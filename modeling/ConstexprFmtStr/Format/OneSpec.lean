import Mathlib.Data.List.TakeWhile
import Mathlib.Tactic
import ConstexprFmtStr.Format.Scan

/-!
`getOneSpec` against the reference scan.

* `afterSpecs`, `leadingLits`, `firstSpec`: where the `i`-th specifier stands among the pieces
  of a scan, and the literal text before it.
* `wordFields`: what a specifier says, read from its own characters alone.
* `getOneSpec_eq`: the rescan finds the `i`-th specifier, with what its characters say, and the
  literal text before it as a range of the run-time string.
-/

namespace ConstexprFmtStr

/-! ### Specifiers and literal text among pieces -/

/-- The pieces after the first `num` specifiers. -/
def afterSpecs : List Piece → ℕ → List Piece
  | ps, 0 => ps
  | [], _ + 1 => []
  | .lit _ :: ps, num + 1 => afterSpecs ps (num + 1)
  | .spec _ _ :: ps, num + 1 => afterSpecs ps num

/-- The literal characters before the first specifier. -/
def leadingLits : List Piece → List Char
  | .lit c :: ps => c :: leadingLits ps
  | _ => []

/-- The first specifier. -/
def firstSpec : List Piece → Option (List Char × Char)
  | [] => none
  | .lit _ :: ps => firstSpec ps
  | .spec w t :: _ => some (w, t)

/-- The literal text before the `i`-th specifier, after the last one if there are `i`. -/
def literalBefore (ps : List Piece) (i : ℕ) : List Char := leadingLits (afterSpecs ps i)

/-- The `i`-th specifier. -/
def specAt (ps : List Piece) (i : ℕ) : Option (List Char × Char) := firstSpec (afterSpecs ps i)

@[simp] lemma afterSpecs_zero (ps : List Piece) : afterSpecs ps 0 = ps := by
  cases ps <;> rfl

lemma afterSpecs_suffix (ps : List Piece) (num : ℕ) : afterSpecs ps num <:+ ps := by
  induction ps generalizing num with
  | nil => cases num <;> exact List.suffix_rfl
  | cons p ps ih =>
      cases num with
      | zero => exact List.suffix_rfl
      | succ num =>
          cases p with
          | lit c => exact (ih (num + 1)).trans (List.suffix_cons _ _)
          | spec w t => exact (ih num).trans (List.suffix_cons _ _)

lemma countP_afterSpecs (ps : List Piece) (num : ℕ) :
    (afterSpecs ps num).countP Piece.isSpec = ps.countP Piece.isSpec - num := by
  induction ps generalizing num with
  | nil => cases num <;> simp [afterSpecs]
  | cons p ps ih =>
      cases num with
      | zero => rfl
      | succ num => cases p <;> simp [afterSpecs, ih]

lemma firstSpec_isNone (ps : List Piece) :
    (firstSpec ps).isNone = (ps.countP Piece.isSpec == 0) := by
  induction ps with
  | nil => rfl
  | cons p ps ih => cases p <;> simp [firstSpec, ih]

lemma leadingLits_prefix (ps : List Piece) : leadingLits ps <+: squeezed ps := by
  induction ps with
  | nil => exact List.prefix_rfl
  | cons p ps ih =>
      cases p with
      | lit c => exact List.cons_prefix_cons.mpr ⟨rfl, ih⟩
      | spec w t => exact List.nil_prefix

lemma firstSpec_mem {ps : List Piece} {w : List Char} {t : Char}
    (h : firstSpec ps = some (w, t)) : Piece.spec w t ∈ ps := by
  induction ps with
  | nil => exact absurd h (by simp [firstSpec])
  | cons p ps ih =>
      cases p with
      | lit c => exact List.mem_cons_of_mem _ (ih h)
      | spec w' t' =>
          obtain ⟨rfl, rfl⟩ : w' = w ∧ t' = t := by simpa [firstSpec] using h
          exact List.mem_cons_self

/-- A specifier of a scan is a word and a terminal. -/
lemma Reads.mem_spec {s : List Char} {ps : List Piece} (h : Reads s ps) {w : List Char}
    {t : Char} (hmem : Piece.spec w t ∈ ps) : IsWord w ∧ isTerminal t = true := by
  induction h with
  | done => exact absurd hmem List.not_mem_nil
  | truncated hw => exact absurd hmem List.not_mem_nil
  | plain hc h ih => exact ih (by simpa using hmem)
  | valid hw ht h ih =>
      rcases List.mem_cons.mp hmem with heq | hmem
      · obtain ⟨rfl, rfl⟩ := Piece.spec.inj heq
        exact ⟨hw, ht⟩
      · exact ih hmem
  | invalid hw hspec hterm hnul h ih => exact ih (by simpa using hmem)

/-! ### The first loop -/

section SkipSpecs

variable {fmt : List Char} {pos fuel num inv b total : ℕ}

lemma skipSpecs_plain {c : Char} {rest : List Char} (h : fmt.drop pos = c :: rest)
    (hc : isPlain c = true) :
    skipSpecs fmt (fuel + 1) (num + 1) pos inv b =
      skipSpecs fmt (fuel + 1) (num + 1) (pos + 1) inv b := by
  have hne : (c != '%') = true := by simpa using ne_percent_of_plain hc
  rw [skipSpecs, skipWhile_step h hne, skipSpecs]

lemma skipSpecs_word {w : List Char} {t : Char} {rest : List Char}
    (h : fmt.drop pos = '%' :: (w ++ t :: rest)) (hw : IsWord w) (ht : isSpecChar t = false) :
    skipSpecs fmt (fuel + 1) (num + 1) pos inv b =
      if isTerminal t then
        skipSpecs fmt fuel num (pos + 1 + w.length + 1) inv
          (if num = 0 then pos + 1 + w.length + 1 - inv else b)
      else
        skipSpecs fmt fuel (num + 1) (pos + 1 + w.length + 1) (inv + (1 + w.length)) b := by
  have hstop : skipWhile (fun c => c != '%') fmt pos = .ok pos := skipWhile_stop h (by decide)
  have hsize : pos + 1 + w.length - pos = 1 + w.length := by omega
  simp only [skipSpecs, hstop, Scan.ok_bind, skipWhile_word h hw ht,
    charAt_of_drop (drop_word h), hsize]

/-- The loop stops after the `num`-th specifier. A position `p` of the array is the position
`p - inv` of the run-time string, of length `total`. -/
lemma skipSpecs_eq {s : List Char} {ps : List Piece} (hreads : Reads s ps)
    (hnum : num ≤ ps.countP Piece.isSpec) (h : fmt.drop pos = s ++ [nul])
    (hfuel : s.length < fuel) (htotal : (squeezed ps).length ≤ total)
    (hpos : pos + (squeezed ps).length = total + inv)
    (hb : num = 0 → b + (squeezed ps).length = total) :
    ∃ s' pos' inv' b', skipSpecs fmt fuel num pos inv b = .ok (pos', inv', b') ∧
      Reads s' (afterSpecs ps num) ∧ fmt.drop pos' = s' ++ [nul] ∧ s'.length ≤ s.length ∧
      pos' + (squeezed (afterSpecs ps num)).length = total + inv' ∧
      b' + (squeezed (afterSpecs ps num)).length = total := by
  induction hreads generalizing fuel num pos inv b with
  | done =>
      obtain rfl : num = 0 := by simpa using hnum
      exact ⟨[], pos, inv, b, by cases fuel <;> rfl, .done, h, le_rfl, hpos, hb rfl⟩
  | @truncated w hw =>
      obtain rfl : num = 0 := by simpa using hnum
      exact ⟨'%' :: w, pos, inv, b, by cases fuel <;> rfl, .truncated hw, h, le_rfl, hpos, hb rfl⟩
  | @plain c s ps hc hreads ih =>
      cases num with
      | zero =>
          exact ⟨c :: s, pos, inv, b, by cases fuel <;> rfl, .plain hc hreads, h, le_rfl, hpos,
            hb rfl⟩
      | succ num =>
          obtain ⟨fuel, rfl⟩ : ∃ k, fuel = k + 1 := ⟨fuel - 1, by omega⟩
          rw [skipSpecs_plain h hc, afterSpecs]
          obtain ⟨s', pos', inv', b', hrun, hr, hd, hle, hp, hb'⟩ :=
            ih (show num + 1 ≤ _ by simpa using hnum) (drop_succ h)
              (show s.length < fuel + 1 by simp at hfuel; omega)
              (by simp [Piece.text] at htotal; omega)
              (show pos + 1 + _ = total + inv by simp [Piece.text] at hpos; omega)
              (show num + 1 = 0 → b + _ = total by omega)
          exact ⟨s', pos', inv', b', hrun, hr, hd, by simp; omega, hp, hb'⟩
  | @valid w t s ps hw ht hreads ih =>
      have hd : fmt.drop pos = '%' :: (w ++ t :: (s ++ [nul])) := by simpa using h
      cases num with
      | zero =>
          exact ⟨_, pos, inv, b, by cases fuel <;> rfl, .valid hw ht hreads, h, le_rfl, hpos,
            hb rfl⟩
      | succ num =>
          obtain ⟨fuel, rfl⟩ : ∃ k, fuel = k + 1 := ⟨fuel - 1, by omega⟩
          simp only [squeezed_cons, Piece.text, List.cons_append, List.length_cons,
            List.length_append, List.append_assoc, List.length_nil] at hpos htotal
          rw [skipSpecs_word hd hw (specChar_of_terminal ht), if_pos ht, afterSpecs]
          obtain ⟨s', pos', inv', b', hrun, hr, hd', hle, hp, hb'⟩ :=
            ih (show num ≤ _ by simpa using hnum) (drop_succ (drop_word hd))
              (show s.length < fuel by simp at hfuel; omega) (by omega)
              (show pos + 1 + w.length + 1 + _ = total + inv by omega)
              (show num = 0 →
                (if num = 0 then pos + 1 + w.length + 1 - inv else b) + _ = total from
                fun h0 => by rw [if_pos h0]; omega)
          exact ⟨s', pos', inv', b', hrun, hr, hd', by simp; omega, hp, hb'⟩
  | @invalid w t s ps hw hspec hterm hnul hreads ih =>
      have hd : fmt.drop pos = '%' :: (w ++ t :: (s ++ [nul])) := by simpa using h
      cases num with
      | zero =>
          exact ⟨_, pos, inv, b, by cases fuel <;> rfl, .invalid hw hspec hterm hnul hreads, h,
            le_rfl, hpos, hb rfl⟩
      | succ num =>
          obtain ⟨fuel, rfl⟩ : ∃ k, fuel = k + 1 := ⟨fuel - 1, by omega⟩
          rw [skipSpecs_word hd hw hspec, if_neg (by simp [hterm]), afterSpecs]
          obtain ⟨s', pos', inv', b', hrun, hr, hd', hle, hp, hb'⟩ :=
            ih (show num + 1 ≤ _ by simpa using hnum) (drop_succ (drop_word hd))
              (show s.length < fuel by simp at hfuel; omega)
              (by simp [Piece.text] at htotal; omega)
              (show pos + 1 + w.length + 1 + _ = total + (inv + (1 + w.length)) by
                simp [Piece.text] at hpos; omega)
              (show num + 1 = 0 → b + _ = total by omega)
          exact ⟨s', pos', inv', b', hrun, hr, hd', by simp; omega, hp, hb'⟩

end SkipSpecs

/-! ### The second loop -/

section NextSpec

variable {fmt : List Char} {pos fuel inv q : ℕ}

lemma nextSpec_nul {rest : List Char} (h : fmt.drop pos = nul :: rest) :
    nextSpec fmt (fuel + 1) pos inv q = .ok (q, pos - inv, true) := by
  simp [nextSpec, skipWhile_stop h (show isPlain nul = false by decide), charAt_of_drop h]

lemma nextSpec_plain {c : Char} {rest : List Char} (h : fmt.drop pos = c :: rest)
    (hc : isPlain c = true) :
    nextSpec fmt (fuel + 1) pos inv q = nextSpec fmt (fuel + 1) (pos + 1) inv q := by
  rw [nextSpec, skipWhile_step h hc, nextSpec]

lemma nextSpec_word {w : List Char} {t : Char} {rest : List Char}
    (h : fmt.drop pos = '%' :: (w ++ t :: rest)) (hw : IsWord w) (ht : isSpecChar t = false) :
    nextSpec fmt (fuel + 1) pos inv q =
      if isTerminal t then .ok (pos, pos - inv, false)
      else if t = nul then .ok (pos, pos + 1 + w.length - (inv + (1 + w.length)), true)
      else nextSpec fmt fuel (pos + 1 + w.length + 1) (inv + (1 + w.length)) pos := by
  have hne : ¬ ('%' : Char) = nul := by decide
  have hstop := skipWhile_stop h (show isPlain '%' = false by decide)
  have hsize : pos + 1 + w.length - pos = 1 + w.length := by omega
  simp only [nextSpec, hstop, Scan.ok_bind, charAt_of_drop h, if_neg hne,
    skipWhile_word h hw ht, charAt_of_drop (drop_word h), Scan.pure_eq, hsize]

/-- The loop ends before the first specifier that is left, or at the '\0'. -/
lemma nextSpec_eq {s : List Char} {ps : List Piece} (hreads : Reads s ps)
    (h : fmt.drop pos = s ++ [nul]) (hfuel : s.length < fuel) (hinv : inv ≤ pos) :
    ∃ q', nextSpec fmt fuel pos inv q =
        .ok (q', pos - inv + (leadingLits ps).length, (firstSpec ps).isNone) ∧
      ∀ w t, firstSpec ps = some (w, t) → ∃ rest, fmt.drop (q' + 1) = w ++ t :: rest := by
  obtain ⟨fuel, rfl⟩ : ∃ k, fuel = k + 1 := ⟨fuel - 1, by omega⟩
  induction hreads generalizing fuel pos inv q with
  | done =>
      refine ⟨q, ?_, fun w t hf => absurd hf (by simp [firstSpec])⟩
      rw [nextSpec_nul h]
      rfl
  | @truncated w hw =>
      refine ⟨pos, ?_, fun w t hf => absurd hf (by simp [firstSpec])⟩
      rw [nextSpec_word h hw specChar_nul, if_neg (by decide), if_pos rfl]
      simp only [firstSpec, leadingLits, List.length_nil, Option.isNone_none, Except.ok.injEq,
        Prod.mk.injEq, true_and, and_true]
      omega
  | @plain c s ps hc hreads ih =>
      rw [nextSpec_plain h hc]
      obtain ⟨q', hrun, hword⟩ := ih (q := q) (drop_succ h)
        (show inv ≤ pos + 1 by omega) fuel (by simp at hfuel; omega)
      refine ⟨q', ?_, hword⟩
      rw [hrun, leadingLits, firstSpec, List.length_cons]
      congr 3
      omega
  | @valid w t s ps hw ht hreads ih =>
      have hd : fmt.drop pos = '%' :: (w ++ t :: (s ++ [nul])) := by simpa using h
      refine ⟨pos, ?_, ?_⟩
      · rw [nextSpec_word hd hw (specChar_of_terminal ht), if_pos ht]
        rfl
      · intro w' t' hf
        obtain ⟨rfl, rfl⟩ : w = w' ∧ t = t' := by simpa [firstSpec] using hf
        exact ⟨s ++ [nul], drop_succ hd⟩
  | @invalid w t s ps hw hspec hterm hnul hreads ih =>
      have hd : fmt.drop pos = '%' :: (w ++ t :: (s ++ [nul])) := by simpa using h
      obtain ⟨fuel, rfl⟩ : ∃ k, fuel = k + 1 := ⟨fuel - 1, by simp at hfuel; omega⟩
      rw [nextSpec_word hd hw hspec, if_neg (by simp [hterm]), if_neg hnul]
      obtain ⟨q', hrun, hword⟩ := ih (q := pos) (drop_succ (drop_word hd))
        (show inv + (1 + w.length) ≤ pos + 1 + w.length + 1 by omega) fuel
        (by simp at hfuel; omega)
      refine ⟨q', ?_, hword⟩
      rw [hrun, leadingLits, firstSpec, List.length_cons]
      congr 3
      omega

end NextSpec

/-! ### What a specifier says -/

/-- The value of a run of digits. -/
def numeralFrom (v : ℤ) (ds : List Char) : ℤ := ds.foldl (fun v d => 10 * v + toDigit d) v

/-- One token at the front of a specifier: its first character `c`, the characters `cs` after
it. The number of characters of `cs` that belong to it comes with the result. -/
def readToken (c : Char) (cs : List Char) (f : SpecFields) : SpecFields × ℕ :=
  let digits := cs.takeWhile isDigit
  if c = ' ' then (if f.sign = nul then { f with sign := ' ' } else f, 0)
  else if c = '#' then ({ f with flags := { f.flags with alt := true } }, 0)
  else if c = '*' then
    ({ f with
      width := dynamicWidth
      widthFirst := if f.prec = dynamicPrecision then false else f.widthFirst }, 0)
  else if c = '-' then ({ f with flags := { f.flags with ladjust := true } }, 0)
  else if c = '+' then ({ f with sign := '+' }, 0)
  else if c = '.' then
    if cs.head? = some '*' then
      ({ f with
        prec := dynamicPrecision
        widthFirst := if f.width = dynamicWidth then true else f.widthFirst }, 1)
    else ({ f with prec := numeralFrom 0 digits }, digits.length)
  else if c = '0' then ({ f with flags := { f.flags with zeropad := true } }, 0)
  else if isDigit c then ({ f with width := numeralFrom 0 (c :: digits) }, digits.length)
  else if c = 'L' then ({ f with flags := { f.flags with longdbl := true } }, 0)
  else if c = 'h' then
    if cs.head? = some 'h' then ({ f with intWidth := { charint := true } }, 1)
    else ({ f with intWidth := { shortint := true } }, 0)
  else if c = 'l' then
    if cs.head? = some 'l' then ({ f with intWidth := { llongint := true } }, 1)
    else ({ f with intWidth := { longint := true } }, 0)
  else if c = 'j' then ({ f with intWidth := { intmaxt := true } }, 0)
  else if c = 't' then ({ f with intWidth := { ptrdifft := true } }, 0)
  else ({ f with intWidth := { sizet := true } }, 0)

/-- The tokens of a specifier from left to right, past the first `skip` characters. -/
def readWord : ℕ → List Char → SpecFields → SpecFields
  | _, [], f => f
  | skip + 1, _ :: cs, f => readWord skip cs f
  | 0, c :: cs, f => readWord (readToken c cs f).2 cs (readToken c cs f).1

/-- What the specifier of the word `w` and the terminal `t` says. -/
def wordFields (w : List Char) (t : Char) : SpecFields :=
  { readWord 0 w {} with terminal := t }

/-- Every width and precision written in `w` fits an `int`. -/
def FitsInt (w : List Char) : Prop :=
  ∀ s ∈ w.tails, numeralFrom 0 (s.takeWhile isDigit) ≤ intMax

instance (w : List Char) : Decidable (FitsInt w) := List.decidableBAll _ _

/-- Every width and precision written in a piece fits an `int`. -/
def Piece.FitsInt : Piece → Prop
  | lit _ => True
  | spec w _ => ConstexprFmtStr.FitsInt w

instance : DecidablePred Piece.FitsInt
  | .lit _ => inferInstanceAs (Decidable True)
  | .spec w _ => inferInstanceAs (Decidable (FitsInt w))

/-- The specifiers of a scan fit if its pieces do. -/
lemma fitsInt_specAt {ps : List Piece} (hfit : ∀ p ∈ ps, p.FitsInt) {i : ℕ} {w : List Char}
    {t : Char} (h : specAt ps i = some (w, t)) : ConstexprFmtStr.FitsInt w :=
  hfit _ ((afterSpecs_suffix ps i).subset (firstSpec_mem h))

lemma FitsInt.suffix {w v : List Char} (h : FitsInt w) (hv : v <:+ w) : FitsInt v :=
  fun s hs => h s ((List.mem_tails _ _).mpr (((List.mem_tails _ _).mp hs).trans hv))

lemma FitsInt.digits {w : List Char} (h : FitsInt w) :
    numeralFrom 0 (w.takeWhile isDigit) ≤ intMax :=
  h w ((List.mem_tails _ _).mpr List.suffix_rfl)

lemma IsWord.suffix {w v : List Char} (h : IsWord w) (hv : v <:+ w) : IsWord v :=
  fun c hc => h c (hv.subset hc)

lemma digit_of_terminal {t : Char} (h : isTerminal t = true) : isDigit t = false := by
  have hall : ∀ t ∈ switchTerminals, isDigit t = false := by
    simp [switchTerminals, isDigit]
  exact hall t (mem_switchTerminals.mpr h)

/-- The first digit of a width is none of the other characters. -/
lemma digit_facts {c : Char} (hc : isDigit c = true) (hzero : c ≠ '0') :
    isFlag c = false ∧ c ≠ '*' ∧ c ≠ '.' ∧ c ≠ ' ' ∧ c ≠ '#' ∧ c ≠ '-' ∧ c ≠ '+' := by
  have hne : ∀ x, isDigit x = false → c ≠ x := by
    rintro x hx rfl
    exact absurd hc (by simp [hx])
  have h1 := hne '-' (by decide)
  have h2 := hne '+' (by decide)
  have h3 := hne ' ' (by decide)
  have h4 := hne '#' (by decide)
  exact ⟨by simp [isFlag, h1, h2, h3, h4, hzero], hne '*' (by decide), hne '.' (by decide), h3, h4,
    h1, h2⟩

/-- The first character of a token: one that stands alone, '.', 'h' or 'l', which look at the next
one, or a digit. -/
lemma specChar_cases {motive : (c : Char) → isSpecChar c = true → Prop}
    (alone : ∀ c (h : isSpecChar c = true),
      c ∈ [' ', '#', '*', '-', '+', '0', 'L', 'j', 't', 'z'] → motive c h)
    (point : ∀ h, motive '.' h) (h : ∀ h, motive 'h' h) (l : ∀ h, motive 'l' h)
    (digit : ∀ c (h : isSpecChar c = true), isDigit c = true → c ≠ '0' → motive c h) (c : Char)
    (hc : isSpecChar c = true) : motive c hc := by
  by_cases hd : isDigit c = true ∧ c ≠ '0'
  · exact digit c hc hd.1 hd.2
  by_cases hpoint : c = '.'
  · subst hpoint
    exact point hc
  by_cases hh : c = 'h'
  · subst hh
    exact h hc
  by_cases hl : c = 'l'
  · subst hl
    exact l hc
  · refine alone c hc ?_
    by_contra hmem
    simp only [List.mem_cons, List.not_mem_nil, or_false, not_or] at hmem
    obtain ⟨h1, h2, h3, h4, h5, h6, h7, h8, h9, h10⟩ := hmem
    have hdigit : isDigit c = false := Bool.eq_false_of_not_eq_true fun hdig => hd ⟨hdig, h6⟩
    simp [isSpecChar, isFlag, isLength, hdigit, hpoint, hh, hl, h1, h2, h3, h4, h5, h6, h7, h8,
      h9, h10] at hc

lemma toDigit_nonneg {d : Char} (h : isDigit d = true) : 0 ≤ toDigit d := by
  simp only [isDigit, Bool.and_eq_true, decide_eq_true_eq] at h
  have hle : '0'.toNat ≤ d.toNat := h.1
  simp only [toDigit]
  omega

lemma le_numeralFrom {v : ℤ} {ds : List Char} (hv : 0 ≤ v) (hds : ∀ d ∈ ds, isDigit d = true) :
    v ≤ numeralFrom v ds := by
  induction ds generalizing v with
  | nil => exact le_rfl
  | cons d ds ih =>
      have hd := toDigit_nonneg (hds d List.mem_cons_self)
      calc v ≤ 10 * v + toDigit d := by omega
        _ ≤ numeralFrom (10 * v + toDigit d) ds :=
          ih (by omega) fun x hx => hds x (List.mem_cons_of_mem _ hx)

/-! ### The third loop -/

section SpecLoop

variable {fmt : List Char} {pos fuel : ℕ} {f : SpecFields}

lemma readDigits_eq {ds : List Char} {c : Char} {rest : List Char} {v : ℤ}
    (h : fmt.drop pos = ds ++ c :: rest) (hds : ∀ d ∈ ds, isDigit d = true)
    (hc : isDigit c = false) (hv : 0 ≤ v) (hfit : numeralFrom v ds ≤ intMax) :
    readDigits fmt pos v = .ok (pos + ds.length, numeralFrom v ds) := by
  rw [readDigits, h]
  clear h
  induction ds generalizing pos v with
  | nil => simp [readDigitsFrom, hc, numeralFrom]
  | cons d ds ih =>
      have hd := hds d List.mem_cons_self
      have hrest : ∀ x ∈ ds, isDigit x = true := fun x hx => hds x (List.mem_cons_of_mem _ hx)
      have hnext : 0 ≤ 10 * v + toDigit d := by
        have := toDigit_nonneg hd
        omega
      have hle : 10 * v + toDigit d ≤ intMax := (le_numeralFrom hnext hrest).trans hfit
      rw [List.cons_append, readDigitsFrom, if_pos hd, if_neg (not_lt.mpr hle),
        ih hrest hnext hfit, List.length_cons, Nat.add_right_comm, Nat.add_assoc]
      rfl

/-- What follows a run of digits in a specifier is not a digit. -/
lemma exists_not_digit (cs : List Char) {t : Char} (rest : List Char)
    (ht : isTerminal t = true) :
    ∃ c rest', cs ++ t :: rest = cs.takeWhile isDigit ++ c :: rest' ∧ isDigit c = false := by
  induction cs with
  | nil => exact ⟨t, rest, rfl, digit_of_terminal ht⟩
  | cons c cs ih =>
      by_cases hc : isDigit c = true
      · obtain ⟨c', rest', heq, hc'⟩ := ih
        exact ⟨c', rest', by rw [List.takeWhile_cons_of_pos hc, List.cons_append, heq]; rfl, hc'⟩
      · exact ⟨c, cs ++ t :: rest, by rw [List.takeWhile_cons_of_neg hc]; rfl, by simpa using hc⟩

lemma charAt_succ {c t : Char} {cs rest : List Char} (h : fmt.drop pos = c :: (cs ++ t :: rest)) :
    charAt fmt (pos + 1) = .ok (cs.head?.getD t) := by
  have hd := drop_succ h
  cases cs with
  | nil => exact charAt_of_drop hd
  | cons x xs => exact charAt_of_drop hd

/-- The number that is written in a token fits an `int`, if there is one. -/
def TokenFits (c : Char) (cs : List Char) : Prop :=
  (c = '.' → numeralFrom 0 (cs.takeWhile isDigit) ≤ intMax) ∧
    (isDigit c = true → c ≠ '0' → numeralFrom 0 (c :: cs.takeWhile isDigit) ≤ intMax)

lemma FitsInt.token {c : Char} {cs : List Char} (h : FitsInt (c :: cs)) : TokenFits c cs := by
  refine ⟨fun _ => (h.suffix (List.suffix_cons _ _)).digits, fun hc _ => ?_⟩
  have hle := h.digits
  rwa [List.takeWhile_cons_of_pos hc] at hle

/-- One token of a specifier. -/
lemma switchSpec_token {c : Char} {cs : List Char} {t : Char} {rest : List Char}
    (h : fmt.drop pos = c :: (cs ++ t :: rest)) (hw : IsWord (c :: cs))
    (ht : isTerminal t = true) (hfit : TokenFits c cs) :
    switchSpec fmt pos f = .ok (pos + (readToken c cs f).2, (readToken c cs f).1, false) := by
  have hhead : ∀ d, d ≠ t → (cs.head?.getD t = d ↔ cs.head? = some d) := by
    intro d hd
    cases cs with
    | nil => simp [hd.symm]
    | cons x xs => simp
  obtain ⟨d, rest', heq, hd⟩ := exists_not_digit cs rest ht
  have hdigits : ∀ x ∈ cs.takeWhile isDigit, isDigit x = true := fun x hx =>
    List.mem_takeWhile_imp hx
  have hprec (hpoint : c = '.') : readDigits fmt (pos + 1) 0 =
      .ok (pos + 1 + (cs.takeWhile isDigit).length, numeralFrom 0 (cs.takeWhile isDigit)) :=
    readDigits_eq ((drop_succ h).trans heq) hdigits hd le_rfl (hfit.1 hpoint)
  have hspec := hw c List.mem_cons_self
  induction c, hspec using specChar_cases with
  | alone c _ hc =>
      fin_cases hc <;> simp [switchSpec, charAt_of_drop h, readToken, isDigit]
  | point =>
      have hne : '*' ≠ t := by
        rintro rfl
        exact absurd ht (by decide)
      by_cases hnext : cs.head? = some '*' <;>
        simp [switchSpec, charAt_of_drop h, charAt_succ h, hhead _ hne, hnext, readToken, hprec rfl]
  | h =>
      have hne : 'h' ≠ t := by
        rintro rfl
        exact absurd ht (by decide)
      by_cases hnext : cs.head? = some 'h' <;>
        simp [switchSpec, charAt_of_drop h, charAt_succ h, hhead _ hne, hnext, readToken, isDigit]
  | l =>
      have hne : 'l' ≠ t := by
        rintro rfl
        exact absurd ht (by decide)
      by_cases hnext : cs.head? = some 'l' <;>
        simp [switchSpec, charAt_of_drop h, charAt_succ h, hhead _ hne, hnext, readToken, isDigit]
  | digit c _ hc hzero =>
      obtain ⟨-, h1, h2, h3, h4, h5, h6⟩ := digit_facts hc hzero
      have hwidth : readDigits fmt pos 0 =
          .ok (pos + (c :: cs.takeWhile isDigit).length,
            numeralFrom 0 (c :: cs.takeWhile isDigit)) := by
        refine readDigits_eq (by rw [h, heq, List.cons_append]) ?_ hd le_rfl ?_
        · intro x hx
          rcases List.mem_cons.mp hx with rfl | hx
          · exact hc
          · exact hdigits x hx
        · exact hfit.2 hc hzero
      simp [switchSpec, charAt_of_drop h, readToken, hwidth, hc, hzero, h1, h2, h3, h4, h5, h6]

lemma readToken_le {c : Char} (hc : isSpecChar c = true) (cs : List Char) (f : SpecFields) :
    (readToken c cs f).2 ≤ cs.length := by
  have hdigits := (List.takeWhile_prefix isDigit (l := cs)).length_le
  have hhead : ∀ x, cs.head? = some x → 1 ≤ cs.length := by
    intro x hx
    cases cs with
    | nil => exact absurd hx (by simp)
    | cons y ys => simp
  have hone : ∀ x : Char, (if cs.head? = some x then 1 else 0) ≤ cs.length := by
    intro x
    split_ifs with hx
    · exact hhead x hx
    · exact Nat.zero_le _
  induction c, hc using specChar_cases with
  | alone c _ hc => fin_cases hc <;> simp [readToken, isDigit]
  | point =>
      by_cases hx : cs.head? = some '*'
      · simpa [readToken, hx] using hhead _ hx
      · simpa [readToken, hx] using hdigits
  | h => simpa [readToken, isDigit, apply_ite Prod.snd] using hone 'h'
  | l => simpa [readToken, isDigit, apply_ite Prod.snd] using hone 'l'
  | digit c _ hdigit hzero =>
      obtain ⟨-, h1, h2, h3, h4, h5, h6⟩ := digit_facts hdigit hzero
      simpa [readToken, hdigit, hzero, h1, h2, h3, h4, h5, h6] using hdigits

lemma switchSpec_terminal {t : Char} {rest : List Char} (h : fmt.drop pos = t :: rest)
    (ht : isTerminal t = true) :
    switchSpec fmt pos f = .ok (pos, { f with terminal := t }, true) := by
  have hne : ∀ x, isTerminal x = false → t ≠ x := by
    rintro x hx rfl
    exact absurd ht (by simp [hx])
  simp [switchSpec, charAt_of_drop h, digit_of_terminal ht, mem_switchTerminals.mpr ht,
    hne ' ' (by decide), hne '#' (by decide), hne '*' (by decide), hne '-' (by decide),
    hne '+' (by decide), hne '.' (by decide), hne '0' (by decide), hne 'L' (by decide),
    hne 'h' (by decide), hne 'l' (by decide), hne 'j' (by decide), hne 't' (by decide),
    hne 'z' (by decide)]

lemma readWord_skip (skip : ℕ) (cs : List Char) (f : SpecFields) :
    readWord skip cs f = readWord 0 (cs.drop skip) f := by
  induction cs generalizing skip with
  | nil => simp [readWord]
  | cons c cs ih =>
      cases skip with
      | zero => rfl
      | succ skip => rw [readWord, ih, List.drop_succ_cons]

/-- The loop reads the word from left to right and leaves with the terminal. -/
lemma specLoop_eq {w : List Char} {t : Char} {rest : List Char}
    (h : fmt.drop pos = w ++ t :: rest) (hw : IsWord w) (ht : isTerminal t = true)
    (hfit : FitsInt w) (hfuel : w.length < fuel) :
    specLoop fmt fuel pos f = .ok { readWord 0 w f with terminal := t } := by
  obtain ⟨fuel, rfl⟩ : ∃ k, fuel = k + 1 := ⟨fuel - 1, by omega⟩
  induction hn : w.length using Nat.strong_induction_on generalizing w pos fuel f with
  | _ n ih =>
    cases w with
    | nil => simp [specLoop, switchSpec_terminal h ht, readWord]
    | cons c cs =>
        have hd : fmt.drop (pos + 1) = cs ++ t :: rest := drop_succ h
        have hle := readToken_le (hw c List.mem_cons_self) cs f
        have hsuffix : cs.drop (readToken c cs f).2 <:+ c :: cs :=
          (List.drop_suffix _ _).trans (List.suffix_cons _ _)
        have hlen : (cs.drop (readToken c cs f).2).length < n := by
          rw [← hn, List.length_drop, List.length_cons]
          omega
        have hnext : fmt.drop (pos + (readToken c cs f).2 + 1) =
            cs.drop (readToken c cs f).2 ++ t :: rest := by
          rw [Nat.add_right_comm, ← List.drop_drop, hd, List.drop_append_of_le_length hle]
        obtain ⟨fuel, rfl⟩ : ∃ k, fuel = k + 1 := ⟨fuel - 1, by simp at hfuel; omega⟩
        rw [specLoop, switchSpec_token h hw ht hfit.token, Scan.ok_bind]
        simp only [Bool.false_eq_true, if_false]
        rw [ih _ hlen hnext (hw.suffix hsuffix) (hfit.suffix hsuffix) fuel
          (by rw [List.length_drop]; simp at hfuel; omega) rfl, readWord,
          readWord_skip (readToken c cs f).2]

end SpecLoop

/-! ### The `i`-th specifier -/

/-- What is returned for a specifier that says `f`. -/
def SpecFields.specInfo (f : SpecFields) (begin_ end_ : ℕ) : SpecInfo where
  begin_ := begin_
  end_ := end_
  flags := f.flags.or f.intWidth
  width := f.width
  prec := f.prec
  sign := f.sign
  terminal := f.terminal
  wFirst := f.widthFirst

/-- What the `i`-th specifier says, nothing if there is none. -/
def fieldsAt (ps : List Piece) (i : ℕ) : SpecFields :=
  match specAt ps i with
  | some (w, t) => wordFields w t
  | none => {}

/-- Where the literal text before the `i`-th specifier begins in the squeezed text. -/
def literalBegin (ps : List Piece) (i : ℕ) : ℕ :=
  (squeezed ps).length - (squeezed (afterSpecs ps i)).length

/-- The `SpecInfo` of the `i`-th specifier of a scan. -/
def specInfoAt (ps : List Piece) (i : ℕ) : SpecInfo :=
  (fieldsAt ps i).specInfo (literalBegin ps i)
    (literalBegin ps i + (literalBefore ps i).length)

/-- The squeezed text from `literalBegin` on. -/
lemma drop_literalBegin (ps : List Piece) (i : ℕ) :
    (squeezed ps).drop (literalBegin ps i) = squeezed (afterSpecs ps i) := by
  obtain ⟨pre, hpre⟩ := afterSpecs_suffix ps i
  have hsplit : squeezed ps = squeezed pre ++ squeezed (afterSpecs ps i) := by
    rw [← squeezed_append, hpre]
  have hlen : literalBegin ps i = (squeezed pre).length := by
    rw [literalBegin, hsplit, List.length_append]
    omega
  rw [hlen, hsplit, List.drop_left]

/-- The range of the `i`-th specifier is the literal text before it. -/
lemma slice_literalBefore (ps : List Piece) (i : ℕ) :
    literalBegin ps i + (literalBefore ps i).length ≤ (squeezed ps).length ∧
      ((squeezed ps).drop (literalBegin ps i)).take (literalBefore ps i).length =
        literalBefore ps i := by
  have hprefix := leadingLits_prefix (afterSpecs ps i)
  have hle := hprefix.length_le
  have hsuffix := congrArg List.length (drop_literalBegin ps i)
  have hbegin : literalBegin ps i ≤ (squeezed ps).length := Nat.sub_le _ _
  rw [List.length_drop] at hsuffix
  constructor
  · simp only [literalBefore]
    omega
  · rw [drop_literalBegin]
    exact (List.prefix_iff_eq_take.mp hprefix).symm

/-- **`getOneSpec`** finds the `i`-th specifier of the scan: no read past the '\0', no throw,
no overflow, and the loops end. -/
theorem getOneSpec_eq {s : List Char} (hs : nul ∉ s) {i : ℕ}
    (hfit : ∀ w t, specAt (scan s) i = some (w, t) → FitsInt w)
    (hi : i ≤ (scan s).countP Piece.isSpec) :
    getOneSpec (s ++ [nul]) i = .ok (specInfoAt (scan s) i) := by
  have hreads := reads_scan hs
  have hfuel : s.length < (s ++ [nul]).length := by simp
  obtain ⟨s', pos, inv, b, hskip, hreads', hdrop, hle, hpos, hb⟩ :=
    skipSpecs_eq hreads hi (show (s ++ [nul]).drop 0 = s ++ [nul] from List.drop_zero) hfuel
      le_rfl (show 0 + (squeezed (scan s)).length = (squeezed (scan s)).length + 0 by omega)
      (show i = 0 → 0 + (squeezed (scan s)).length = (squeezed (scan s)).length by omega)
  obtain ⟨q, hnext, hword⟩ := nextSpec_eq (q := 0) hreads' hdrop
    (show s'.length < (s ++ [nul]).length by omega) (show inv ≤ pos by omega)
  have hbegin : b = literalBegin (scan s) i := by
    rw [literalBegin]
    omega
  have hend : pos - inv = b := by omega
  rw [getOneSpec, hskip, Scan.ok_bind]
  simp only [hnext, Scan.ok_bind, Scan.pure_eq, hend]
  cases hspec : firstSpec (afterSpecs (scan s) i) with
  | none =>
      rw [hbegin]
      simp [specInfoAt, fieldsAt, specAt, hspec, SpecFields.specInfo, literalBefore]
  | some spec =>
      obtain ⟨w, t⟩ := spec
      have hmem : Piece.spec w t ∈ scan s := (afterSpecs_suffix _ _).subset (firstSpec_mem hspec)
      obtain ⟨hw, ht⟩ := hreads.mem_spec hmem
      obtain ⟨rest, hrest⟩ := hword w t hspec
      have hwlen : w.length < (s ++ [nul]).length := by
        have := congrArg List.length hrest
        simp only [List.length_drop, List.length_append, List.length_cons] at this ⊢
        omega
      have hloop := specLoop_eq (f := {}) hrest hw ht (hfit w t hspec) hwlen
      simp only [Option.isNone_some, Bool.false_eq_true, if_false, hloop, Scan.ok_bind, hbegin]
      simp [specInfoAt, fieldsAt, specAt, hspec, SpecFields.specInfo, literalBefore, wordFields]

end ConstexprFmtStr
