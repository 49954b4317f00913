import Mathlib.Tactic
import ConstexprFmtStr.Format.Scanners

/-!
The reference scan of a format string, and the scanners that count and squeeze.

* `scan`: one pass from left to right over a format without its '\0'. '%' followed by the
  maximal run of specifier characters and a character `t` is a specifier if `t` is a terminal,
  and otherwise only the literal `t`.
* `Reads`: the same as a relation, with one rule for each thing a scan can meet; the proofs
  about the scanners are inductions over it (`reads_scan`).
* `countValidSpecInfos_eq`, `squeezeSoundSize_eq`, `runTimeStr_eq`: the scanners against it.
-/

namespace ConstexprFmtStr

/-! ### The reference scan -/

/-- What a scan sees: a literal character, or a specifier with what stands between its '%' and
its terminal. -/
inductive Piece
  | lit (c : Char)
  | spec (word : List Char) (t : Char)
  deriving DecidableEq

namespace Piece

/-- The characters of a piece. -/
def text : Piece → List Char
  | lit c => [c]
  | spec word t => '%' :: (word ++ [t])

/-- Is it a specifier? -/
def isSpec : Piece → Bool
  | lit _ => false
  | spec _ _ => true

end Piece

@[simp] lemma countP_isSpec_lit (c : Char) (ps : List Piece) :
    (Piece.lit c :: ps).countP Piece.isSpec = ps.countP Piece.isSpec :=
  List.countP_cons_of_neg (by simp [Piece.isSpec])

@[simp] lemma countP_isSpec_spec (w : List Char) (t : Char) (ps : List Piece) :
    (Piece.spec w t :: ps).countP Piece.isSpec = ps.countP Piece.isSpec + 1 :=
  List.countP_cons_of_pos rfl

/-- The squeezed text of a list of pieces. -/
def squeezed (ps : List Piece) : List Char := ps.flatMap Piece.text

@[simp] lemma squeezed_nil : squeezed [] = [] := rfl

@[simp] lemma squeezed_cons (p : Piece) (ps : List Piece) :
    squeezed (p :: ps) = p.text ++ squeezed ps := List.flatMap_cons

@[simp] lemma squeezed_append (ps qs : List Piece) :
    squeezed (ps ++ qs) = squeezed ps ++ squeezed qs := List.flatMap_append

/-- The scan, outside a specifier or after a '%' and the run `word`. -/
def scanFrom : Option (List Char) → List Char → List Piece
  | _, [] => []
  | none, c :: cs => if c = '%' then scanFrom (some []) cs else .lit c :: scanFrom none cs
  | some word, c :: cs =>
      if isSpecChar c then scanFrom (some (word ++ [c])) cs
      else (if isTerminal c then .spec word c else .lit c) :: scanFrom none cs

/-- The reference scan of a format. -/
def scan (s : List Char) : List Piece := scanFrom none s

/-- The characters that may stand between a '%' and a terminal. -/
def IsWord (w : List Char) : Prop := ∀ c ∈ w, isSpecChar c = true

@[simp] lemma isWord_nil : IsWord [] := fun _ hc => absurd hc (List.not_mem_nil)

lemma IsWord.concat {w : List Char} (hw : IsWord w) {c : Char} (hc : isSpecChar c = true) :
    IsWord (w ++ [c]) := by
  intro x hx
  rcases List.mem_append.mp hx with hx | hx
  · exact hw x hx
  · rwa [List.mem_singleton.mp hx]

/-- What the scan of a format without '\0' can meet. -/
inductive Reads : List Char → List Piece → Prop
  /-- nothing is left -/
  | done : Reads [] []
  /-- the format ends in the middle of a specifier -/
  | truncated {w : List Char} (hw : IsWord w) : Reads ('%' :: w) []
  /-- a character outside specifiers -/
  | plain {c : Char} {s : List Char} {ps : List Piece} (hc : isPlain c = true) (h : Reads s ps) :
      Reads (c :: s) (.lit c :: ps)
  /-- a specifier -/
  | valid {w : List Char} {t : Char} {s : List Char} {ps : List Piece} (hw : IsWord w)
      (ht : isTerminal t = true) (h : Reads s ps) : Reads ('%' :: (w ++ t :: s)) (.spec w t :: ps)
  /-- a '%' with a run that no terminal follows -/
  | invalid {w : List Char} {t : Char} {s : List Char} {ps : List Piece} (hw : IsWord w)
      (hspec : isSpecChar t = false) (hterm : isTerminal t = false) (hnul : t ≠ nul)
      (h : Reads s ps) : Reads ('%' :: (w ++ t :: s)) (.lit t :: ps)

/-- Both states of the scan at once. -/
lemma reads_scanFrom (s : List Char) (hs : nul ∉ s) :
    Reads s (scanFrom none s) ∧
      ∀ w, IsWord w → Reads ('%' :: (w ++ s)) (scanFrom (some w) s) := by
  induction s with
  | nil =>
      refine ⟨.done, fun w hw => ?_⟩
      rw [List.append_nil]
      exact .truncated hw
  | cons c s ih =>
      obtain ⟨hnone, hsome⟩ := ih fun h => hs (List.mem_cons_of_mem _ h)
      have hc : c ≠ nul := fun h => hs (h ▸ List.mem_cons_self)
      constructor
      · rw [scanFrom]
        split_ifs with hpercent
        · rw [hpercent]
          exact hsome [] isWord_nil
        · exact .plain (by simp [isPlain, hc, hpercent]) hnone
      · intro w hw
        rw [scanFrom]
        split_ifs with hspec hterm
        · have h := hsome (w ++ [c]) (hw.concat hspec)
          rwa [List.append_assoc] at h
        · exact .valid hw hterm hnone
        · exact .invalid hw (by simpa using hspec) (by simpa using hterm) hc hnone

/-- **The scan meets what `Reads` lists.** -/
theorem reads_scan {s : List Char} (hs : nul ∉ s) : Reads s (scan s) := (reads_scanFrom s hs).1

/-- Squeezing never lengthens, and changes nothing if it does not shorten. -/
lemma Reads.length_squeezed {s : List Char} {ps : List Piece} (h : Reads s ps) :
    (squeezed ps).length ≤ s.length ∧ ((squeezed ps).length = s.length → squeezed ps = s) := by
  induction h with
  | done => simp
  | truncated hw => simp
  | plain hc h ih =>
      obtain ⟨hle, heq⟩ := ih
      simp only [squeezed_cons, Piece.text, List.singleton_append, List.length_cons]
      exact ⟨by omega, fun h => by rw [heq (by omega)]⟩
  | valid hw ht h ih =>
      obtain ⟨hle, heq⟩ := ih
      simp only [squeezed_cons, Piece.text, List.cons_append, List.append_assoc,
        List.length_cons, List.length_append, List.nil_append]
      exact ⟨by omega, fun h => by rw [heq (by omega)]⟩
  | invalid hw hspec hterm hnul h ih =>
      obtain ⟨hle, -⟩ := ih
      simp only [squeezed_cons, Piece.text, List.singleton_append, List.length_cons,
        List.length_append]
      exact ⟨by omega, fun h => absurd h (by omega)⟩

/-! ### Positions in the array -/

@[simp] lemma Scan.ok_bind {α β : Type} (a : α) (f : α → Scan β) :
    ((Except.ok a : Scan α) >>= f) = f a := rfl

@[simp] lemma Scan.pure_eq {α : Type} (a : α) : (pure a : Scan α) = .ok a := rfl

section Positions

variable {fmt : List Char} {pos : ℕ}

lemma drop_add {xs rest : List Char} (h : fmt.drop pos = xs ++ rest) :
    fmt.drop (pos + xs.length) = rest := by
  rw [← List.drop_drop, h, List.drop_left]

lemma drop_succ {c : Char} {rest : List Char} (h : fmt.drop pos = c :: rest) :
    fmt.drop (pos + 1) = rest := drop_add (show fmt.drop pos = [c] ++ rest from h)

lemma lt_of_drop {c : Char} {rest : List Char} (h : fmt.drop pos = c :: rest) :
    pos < fmt.length := by
  by_contra hle
  rw [List.drop_eq_nil_of_le (not_lt.mp hle)] at h
  exact absurd h (by simp)

lemma charAt_of_drop {c : Char} {rest : List Char} (h : fmt.drop pos = c :: rest) :
    charAt fmt pos = .ok c := by
  have hget : fmt[pos]? = some c := by rw [← List.head?_drop, h, List.head?_cons]
  rw [charAt, hget]

lemma skipWhile_stop {p : Char → Bool} {c : Char} {rest : List Char}
    (h : fmt.drop pos = c :: rest) (hc : p c = false) : skipWhile p fmt pos = .ok pos := by
  rw [skipWhile, h, skipFrom, hc]
  rfl

lemma skipWhile_step {p : Char → Bool} {c : Char} {rest : List Char}
    (h : fmt.drop pos = c :: rest) (hc : p c = true) :
    skipWhile p fmt pos = skipWhile p fmt (pos + 1) := by
  rw [skipWhile, h, skipFrom, if_pos hc, skipWhile, drop_succ h]

lemma skipWhile_append {p : Char → Bool} {xs : List Char} {c : Char} {rest : List Char}
    (h : fmt.drop pos = xs ++ c :: rest) (hxs : ∀ x ∈ xs, p x = true) (hc : p c = false) :
    skipWhile p fmt pos = .ok (pos + xs.length) := by
  induction xs generalizing pos with
  | nil => exact skipWhile_stop h hc
  | cons x xs ih =>
      rw [skipWhile_step h (hxs x List.mem_cons_self),
        ih (drop_succ h) (fun y hy => hxs y (List.mem_cons_of_mem _ hy)), List.length_cons,
        Nat.add_right_comm, Nat.add_assoc]

/-- Past a '%' and its run, at the character after them. -/
lemma drop_word {w : List Char} {t : Char} {rest : List Char}
    (h : fmt.drop pos = '%' :: (w ++ t :: rest)) :
    fmt.drop (pos + 1 + w.length) = t :: rest := drop_add (drop_succ h)

lemma skipWhile_word {w : List Char} {t : Char} {rest : List Char}
    (h : fmt.drop pos = '%' :: (w ++ t :: rest)) (hw : IsWord w) (ht : isSpecChar t = false) :
    skipWhile isSpecChar fmt (pos + 1) = .ok (pos + 1 + w.length) :=
  skipWhile_append (drop_succ h) hw ht

end Positions

/-! ### Character classes -/

/-- The terminals of the `switch` are those of `isTerminal`. -/
lemma mem_switchTerminals {t : Char} : t ∈ switchTerminals ↔ isTerminal t = true := by
  have hperm : switchTerminals.Perm ['d', 'i', 'u', 'o', 'x', 'X', 'f', 'F', 'e', 'E', 'g', 'G',
      'a', 'A', 'c', 'p', 's', 'n'] := by decide
  rw [hperm.mem_iff]
  simp only [isTerminal, List.mem_cons, List.not_mem_nil, or_false, Bool.or_eq_true, beq_iff_eq,
    or_assoc]

lemma specChar_of_terminal {t : Char} (h : isTerminal t = true) : isSpecChar t = false := by
  have hall : ∀ t ∈ switchTerminals, isSpecChar t = false := by
    simp [switchTerminals, isSpecChar, isFlag, isDigit, isLength]
  exact hall t (mem_switchTerminals.mpr h)

lemma ne_nul_of_terminal {t : Char} (h : isTerminal t = true) : t ≠ nul := by
  rintro rfl
  exact absurd h (by decide)

lemma isTerminal_nul : isTerminal nul = false := by decide

lemma specChar_nul : isSpecChar nul = false := by decide

lemma ne_percent_of_plain {c : Char} (h : isPlain c = true) : c ≠ '%' := by
  rintro rfl
  exact absurd h (by decide)

lemma IsWord.percent_notMem {w : List Char} (hw : IsWord w) : '%' ∉ w := fun h =>
  absurd (hw _ h) (by decide)

lemma terminal_ne_percent {t : Char} (h : isTerminal t = true) : t ≠ '%' := by
  rintro rfl
  exact absurd h (by decide)

/-! ### `countValidSpecInfos` -/

section Count

variable {fmt : List Char} {pos fuel count : ℕ}

lemma countLoop_nul {rest : List Char} (h : fmt.drop pos = nul :: rest) :
    countLoop fmt (fuel + 1) pos count = .ok count := by
  simp [countLoop, skipWhile_stop h (show isPlain nul = false by decide), charAt_of_drop h]

lemma countLoop_plain {c : Char} {rest : List Char} (h : fmt.drop pos = c :: rest)
    (hc : isPlain c = true) :
    countLoop fmt (fuel + 1) pos count = countLoop fmt (fuel + 1) (pos + 1) count := by
  rw [countLoop, skipWhile_step h hc, countLoop]

lemma countLoop_word {w : List Char} {t : Char} {rest : List Char}
    (h : fmt.drop pos = '%' :: (w ++ t :: rest)) (hw : IsWord w) (ht : isSpecChar t = false) :
    countLoop fmt (fuel + 1) pos count =
      if t = nul then .ok count
      else countLoop fmt fuel (pos + 1 + w.length + 1)
        (if isTerminal t then count + 1 else count) := by
  have hne : ¬ ('%' : Char) = nul := by decide
  have hstop := skipWhile_stop h (show isPlain '%' = false by decide)
  simp only [countLoop, hstop, Scan.ok_bind, charAt_of_drop h, if_neg hne,
    skipWhile_word h hw ht, charAt_of_drop (drop_word h), Scan.pure_eq]
  split_ifs with hnul hterm
  · exact absurd hnul (ne_nul_of_terminal hterm)
  all_goals rfl

lemma countLoop_eq {s : List Char} {ps : List Piece} (hreads : Reads s ps)
    (h : fmt.drop pos = s ++ [nul]) (hfuel : s.length < fuel) :
    countLoop fmt fuel pos count = .ok (count + ps.countP Piece.isSpec) := by
  obtain ⟨fuel, rfl⟩ : ∃ k, fuel = k + 1 := ⟨fuel - 1, by omega⟩
  induction hreads generalizing fuel pos count with
  | done => exact countLoop_nul h
  | truncated hw =>
      rw [countLoop_word h hw specChar_nul, if_pos rfl]
      rfl
  | plain hc hreads ih =>
      rw [countLoop_plain h hc, ih (drop_succ h) fuel (by simp at hfuel; omega)]
      rfl
  | @valid w t s ps hw ht hreads ih =>
      have hd : fmt.drop pos = '%' :: (w ++ t :: (s ++ [nul])) := by simpa using h
      obtain ⟨fuel, rfl⟩ : ∃ k, fuel = k + 1 := ⟨fuel - 1, by simp at hfuel; omega⟩
      rw [countLoop_word hd hw (specChar_of_terminal ht), if_neg (ne_nul_of_terminal ht),
        if_pos ht, ih (drop_succ (drop_word hd)) fuel (by simp at hfuel; omega)]
      rw [countP_isSpec_spec, Nat.add_right_comm, Nat.add_assoc]
  | @invalid w t s ps hw hspec hterm hnul hreads ih =>
      have hd : fmt.drop pos = '%' :: (w ++ t :: (s ++ [nul])) := by simpa using h
      obtain ⟨fuel, rfl⟩ : ∃ k, fuel = k + 1 := ⟨fuel - 1, by simp at hfuel; omega⟩
      rw [countLoop_word hd hw hspec, if_neg hnul, if_neg (by simp [hterm]),
        ih (drop_succ (drop_word hd)) fuel (by simp at hfuel; omega)]
      rfl

end Count

/-- **`countValidSpecInfos`** counts the specifiers of the scan. -/
theorem countValidSpecInfos_eq {s : List Char} (hs : nul ∉ s) :
    countValidSpecInfos (s ++ [nul]) = .ok ((scan s).countP Piece.isSpec) := by
  have h : countLoop (s ++ [nul]) (s ++ [nul]).length 0 0 =
      .ok (0 + (scan s).countP Piece.isSpec) :=
    countLoop_eq (reads_scan hs) List.drop_zero (by simp)
  rwa [Nat.zero_add] at h

/-! ### `squeezeSoundSize` -/

section Squeeze

variable {fmt : List Char} {pos fuel : ℕ} {size : ℤ}

lemma squeezeLoop_nul {rest : List Char} (h : fmt.drop pos = nul :: rest) :
    squeezeLoop fmt (fuel + 1) pos size = .ok size := by
  simp [squeezeLoop, skipWhile_stop h (show isPlain nul = false by decide), charAt_of_drop h]

lemma squeezeLoop_plain {c : Char} {rest : List Char} (h : fmt.drop pos = c :: rest)
    (hc : isPlain c = true) :
    squeezeLoop fmt (fuel + 1) pos size = squeezeLoop fmt (fuel + 1) (pos + 1) size := by
  rw [squeezeLoop, skipWhile_step h hc, squeezeLoop]

lemma squeezeLoop_word {w : List Char} {t : Char} {rest : List Char}
    (h : fmt.drop pos = '%' :: (w ++ t :: rest)) (hw : IsWord w) (ht : isSpecChar t = false) :
    squeezeLoop fmt (fuel + 1) pos size =
      if t = nul then .ok (size - (1 + w.length : ℕ))
      else squeezeLoop fmt fuel (pos + 1 + w.length + 1)
        (if isTerminal t then size else size - (1 + w.length : ℕ)) := by
  have hne : ¬ ('%' : Char) = nul := by decide
  have hstop := skipWhile_stop h (show isPlain '%' = false by decide)
  have hsize : ((pos + 1 + w.length : ℕ) : ℤ) - pos = (1 + w.length : ℕ) := by push_cast; ring
  simp only [squeezeLoop, hstop, Scan.ok_bind, charAt_of_drop h, if_neg hne,
    skipWhile_word h hw ht, charAt_of_drop (drop_word h), Scan.pure_eq, hsize]
  split_ifs with hnul hterm
  · exact absurd hnul (ne_nul_of_terminal hterm)
  all_goals rfl

lemma squeezeLoop_eq {s : List Char} {ps : List Piece} (hreads : Reads s ps)
    (h : fmt.drop pos = s ++ [nul]) (hfuel : s.length < fuel) :
    squeezeLoop fmt fuel pos size = .ok (size - (s.length - (squeezed ps).length)) := by
  obtain ⟨fuel, rfl⟩ : ∃ k, fuel = k + 1 := ⟨fuel - 1, by omega⟩
  induction hreads generalizing fuel pos size with
  | done =>
      rw [squeezeLoop_nul h]
      simp
  | truncated hw =>
      rw [squeezeLoop_word h hw specChar_nul, if_pos rfl]
      simp [add_comm]
  | plain hc hreads ih =>
      rw [squeezeLoop_plain h hc, ih (drop_succ h) fuel (by simp at hfuel; omega)]
      simp [Piece.text]
  | @valid w t s ps hw ht hreads ih =>
      have hd : fmt.drop pos = '%' :: (w ++ t :: (s ++ [nul])) := by simpa using h
      obtain ⟨fuel, rfl⟩ : ∃ k, fuel = k + 1 := ⟨fuel - 1, by simp at hfuel; omega⟩
      rw [squeezeLoop_word hd hw (specChar_of_terminal ht), if_neg (ne_nul_of_terminal ht),
        if_pos ht, ih (drop_succ (drop_word hd)) fuel (by simp at hfuel; omega)]
      simp [Piece.text]
  | @invalid w t s ps hw hspec hterm hnul hreads ih =>
      have hd : fmt.drop pos = '%' :: (w ++ t :: (s ++ [nul])) := by simpa using h
      obtain ⟨fuel, rfl⟩ : ∃ k, fuel = k + 1 := ⟨fuel - 1, by simp at hfuel; omega⟩
      rw [squeezeLoop_word hd hw hspec, if_neg hnul, if_neg (by simp [hterm]),
        ih (drop_succ (drop_word hd)) fuel (by simp at hfuel; omega)]
      simp [Piece.text]
      ring

end Squeeze

/-- **`squeezeSoundSize`** is one more than the length of the squeezed text. -/
theorem squeezeSoundSize_eq {s : List Char} (hs : nul ∉ s) :
    squeezeSoundSize (s ++ [nul]) = .ok ((1 + (squeezed (scan s)).length : ℕ) : ℤ) := by
  rw [squeezeSoundSize, squeezeLoop_eq (reads_scan hs) List.drop_zero (by simp),
    List.length_append, List.length_singleton]
  congr 1
  push_cast
  ring

/-! ### `preprocessInvalidSpecs` -/

section Store

variable {fmt : List Char} {offset num : ℕ}

lemma storeOneChar_plain {c : Char} {rest : List Char}
    (h : fmt.drop (num + offset) = c :: rest) (hc : c ≠ '%') :
    storeOneChar fmt offset num = .ok (c, offset) := by
  simp [storeOneChar, lt_of_drop h, charAt_of_drop h, hc]

lemma storeOneChar_word {w : List Char} {t : Char} {rest : List Char}
    (h : fmt.drop (num + offset) = '%' :: (w ++ t :: rest)) (hw : IsWord w)
    (ht : isSpecChar t = false) :
    storeOneChar fmt offset num =
      .ok (if isTerminal t then ('%', offset) else (t, offset + 1 + w.length)) := by
  have hskip : skipWhile isSpecChar fmt (num + (offset + 1)) =
      .ok (num + (offset + 1 + w.length)) := by
    rw [← Nat.add_assoc, skipWhile_word h hw ht]
    congr 1
    omega
  have hlast : charAt fmt (num + (offset + 1 + w.length)) = .ok t := by
    have hd := charAt_of_drop (drop_word h)
    rwa [show num + offset + 1 + w.length = num + (offset + 1 + w.length) by omega] at hd
  simp only [storeOneChar, if_pos (lt_of_drop h), charAt_of_drop h, Scan.ok_bind, hskip, hlast,
    if_true, Scan.pure_eq]
  split_ifs with hterm
  · simp [charAt_of_drop h]
  · rw [Nat.add_sub_cancel_left, hlast]
    rfl

/-- Characters other than '%' are copied one by one. -/
lemma storeChars_copy {xs rest : List Char} {k : ℕ} (h : fmt.drop (num + offset) = xs ++ rest)
    (hxs : '%' ∉ xs) :
    storeChars fmt offset (List.range' num (xs.length + k)) =
      (do return xs ++ (← storeChars fmt offset (List.range' (num + xs.length) k))) := by
  induction xs generalizing num with
  | nil =>
      simp only [List.length_nil, Nat.zero_add, Nat.add_zero, List.nil_append]
      cases storeChars fmt offset (List.range' num k) <;> rfl
  | cons x xs ih =>
      have hx : x ≠ '%' := fun hx => hxs (hx ▸ List.mem_cons_self)
      have hrest : fmt.drop (num + 1 + offset) = xs ++ rest := by
        rw [Nat.add_right_comm]
        exact drop_succ h
      rw [List.length_cons, Nat.add_right_comm, List.range'_succ, storeChars,
        storeOneChar_plain h hx, Scan.ok_bind]
      simp only [ih hrest fun hm => hxs (List.mem_cons_of_mem _ hm), Nat.add_right_comm,
        ← Nat.add_assoc]
      cases storeChars fmt offset (List.range' (num + xs.length + 1) k) <;> rfl

lemma storeChars_cons {c : Char} {offset' n : ℕ}
    (h : storeOneChar fmt offset num = .ok (c, offset')) :
    storeChars fmt offset (List.range' num (n + 1)) =
      (do return c :: (← storeChars fmt offset' (List.range' (num + 1) n))) := by
  rw [List.range'_succ, storeChars, h]
  rfl

lemma storeChars_eq {s : List Char} {ps : List Piece} (hreads : Reads s ps)
    (h : fmt.drop (num + offset) = s ++ [nul]) :
    storeChars fmt offset (List.range' num ((squeezed ps).length + 1)) =
      .ok (squeezed ps ++ [nul]) := by
  induction hreads generalizing num offset with
  | done =>
      rw [storeChars_cons (storeOneChar_plain h (by decide))]
      rfl
  | truncated hw =>
      rw [storeChars_cons (storeOneChar_word h hw specChar_nul)]
      rfl
  | @plain c s ps hc hreads ih =>
      have hd : fmt.drop (num + 1 + offset) = s ++ [nul] := by
        rw [Nat.add_right_comm]
        exact drop_succ h
      rw [squeezed_cons, Piece.text, List.singleton_append, List.length_cons,
        storeChars_cons (storeOneChar_plain h (ne_percent_of_plain hc)), ih hd]
      rfl
  | @valid w t s ps hw ht hreads ih =>
      have hd : fmt.drop (num + offset) = '%' :: (w ++ t :: (s ++ [nul])) := by simpa using h
      have hone := storeOneChar_word hd hw (specChar_of_terminal ht)
      rw [if_pos ht] at hone
      have hcopy : fmt.drop (num + 1 + offset) = (w ++ [t]) ++ (s ++ [nul]) := by
        rw [Nat.add_right_comm, drop_succ hd]
        simp
      have hpercent : '%' ∉ w ++ [t] := by
        simp [hw.percent_notMem, (terminal_ne_percent ht).symm]
      have hrest : fmt.drop (num + 1 + (w ++ [t]).length + offset) = s ++ [nul] := by
        rw [Nat.add_right_comm]
        exact drop_add hcopy
      rw [squeezed_cons, Piece.text, List.cons_append, List.length_cons, storeChars_cons hone,
        List.length_append, Nat.add_assoc, storeChars_copy hcopy hpercent, ih hrest]
      simp
  | @invalid w t s ps hw hspec hterm hnul hreads ih =>
      have hd : fmt.drop (num + offset) = '%' :: (w ++ t :: (s ++ [nul])) := by simpa using h
      have hone := storeOneChar_word hd hw hspec
      rw [if_neg (by simp [hterm])] at hone
      have hrest : fmt.drop (num + 1 + (offset + 1 + w.length)) = s ++ [nul] := by
        rw [show num + 1 + (offset + 1 + w.length) = num + offset + 1 + w.length + 1 by omega]
        exact drop_succ (drop_word hd)
      rw [squeezed_cons, Piece.text, List.singleton_append, List.length_cons,
        storeChars_cons hone, ih hrest]
      rfl

end Store

/-- **The run-time string** is the squeezed text, from whichever of the two arrays it is. -/
theorem runTimeStr_eq {s : List Char} (hs : nul ∉ s) :
    runTimeStr (s ++ [nul]) = .ok (squeezed (scan s) ++ [nul]) := by
  obtain ⟨hle, heq⟩ := (reads_scan hs).length_squeezed
  rw [runTimeStr, squeezeSoundSize_eq hs, Scan.ok_bind, preprocessInvalidSpecs]
  by_cases hlt : (squeezed (scan s)).length < s.length
  · have hsize : ((1 + (squeezed (scan s)).length : ℕ) : ℤ) < ((s ++ [nul]).length : ℕ) := by
      simp
      omega
    have hstore := storeChars_eq (reads_scan hs)
      (show (s ++ [nul]).drop (0 + 0) = s ++ [nul] from List.drop_zero)
    rw [if_pos hsize, Int.toNat_natCast, List.range_eq_range', Nat.add_comm 1, hstore,
      Scan.ok_bind, Nat.add_comm _ 1, if_pos hsize, Scan.pure_eq]
  · have hsize : ¬ ((1 + (squeezed (scan s)).length : ℕ) : ℤ) < ((s ++ [nul]).length : ℕ) := by
      simp
      omega
    rw [if_neg hsize, Scan.pure_eq, Scan.ok_bind, if_neg hsize, heq (by omega), Scan.pure_eq]

end ConstexprFmtStr
