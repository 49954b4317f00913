import Mathlib.Tactic
import ConstexprFmtStr.Format.Integers
import ConstexprFmtStr.Log.Deferred

/-!
Strings with a precision, in a log entry.

* `nulReads`: the addresses that a search for a NUL reads.
* `Taken.logReads`, `Taken.directReads`: what `TZ_LOG` and what direct formatting read of a `char`
  string. `size_congr_of_logReads` and `text_congr_of_directReads`: nothing else of it matters.
* `prec_le_of_format`: no precision exceeds an `int`.
* `defersBounded_iff`: deferring reads no more than direct formatting exactly if every string with
  a precision ends within it.
-/

namespace ConstexprFmtStr

open Slice Word

/-! ### What a search reads -/

/-- The addresses that a search for a NUL in `n` bytes from `a` on reads, as `memchr` does;
`strlen` has no limit. -/
def nulReads (mem : Mem) : ℕ → ℕ → List ℕ
  | 0, _ => []
  | n + 1, a => if mem a = 0 then [a] else a :: nulReads mem n (a + 1)

lemma nulReads_eq (mem : Mem) (n a : ℕ) :
    nulReads mem n a = List.range' a (min n (nulIndex mem n a + 1)) := by
  induction n generalizing a with
  | zero => rw [Nat.zero_min, List.range'_zero, nulReads]
  | succ n ih =>
      rw [nulReads, nulIndex, Nat.succ_min_succ, List.range'_succ]
      split_ifs with h0
      · rw [Nat.min_zero, List.range'_zero]
      · rw [ih]

lemma mem_nulReads {mem : Mem} {n a i : ℕ} :
    i ∈ nulReads mem n a ↔ a ≤ i ∧ i < a + min n (nulIndex mem n a + 1) := by
  rw [nulReads_eq, List.mem_range'_1]

/-- A search finds a NUL if there is one. -/
lemma nulIndex_lt_iff {mem : Mem} {n a : ℕ} :
    nulIndex mem n a < n ↔ ∃ i < n, mem (a + i) = 0 := by
  constructor
  · intro hlt
    exact ⟨_, hlt, mem_nulIndex hlt⟩
  · rintro ⟨i, hi, hzero⟩
    induction n generalizing a i with
    | zero => exact absurd hi (Nat.not_lt_zero i)
    | succ n ih =>
        rw [nulIndex]
        split_ifs with h0
        · exact n.succ_pos
        · cases i with
          | zero => exact absurd hzero h0
          | succ i =>
              refine Nat.succ_lt_succ (ih i (Nat.lt_of_succ_lt_succ hi) ?_)
              rwa [Nat.add_assoc, Nat.add_comm 1]

/-! ### What is read of a string -/

namespace Taken

/-- `%s` with a precision that is not negative, and a `char` array. -/
def IsBounded (t : Taken Arg) : Prop :=
  t.SI.terminal = 's' ∧ t.SI.flags.longint = false ∧
    (∃ isConst, t.arg.type = .charPtr isConst) ∧ 0 ≤ t.prec

/-- What `TZ_LOG` reads of a `char` array: `strlen(cp)` for the size, and
`std::memcpy(*storage2, cp, size)` for the copy. -/
def logReads (mem : Mem) (t : Taken Arg) : List ℕ :=
  nulReads mem (2 ^ 64) t.arg.address ++ List.range' t.arg.address (t.size mem - 1)

/-- What direct formatting reads: `memchr(cp, 0, P)`, or `strlen(cp)`, and the characters that are
printed. -/
def directReads (mem : Mem) (t : Taken Arg) : List ℕ :=
  nulReads mem (stringLimit t.prec) t.arg.address ++
    List.range' t.arg.address (nulIndex mem (stringLimit t.prec) t.arg.address)

/-- There is a NUL among the first `P` bytes. -/
def EndsInPrec (mem : Mem) (t : Taken Arg) : Prop :=
  ∃ i < t.prec.toNat, mem (t.arg.address + i) = 0

end Taken

variable {mem mem' : Mem} {t : Taken Arg}

lemma Taken.IsBounded.size_eq (h : t.IsBounded) :
    t.size mem = strlen mem t.arg.address + 1 := by
  obtain ⟨-, hl, ⟨isConst, htype⟩, -⟩ := h
  simp [Taken.size, sizeForTerminalS, hl, htype, CType.toCharPtr]

lemma Taken.IsBounded.mem_logReads (h : t.IsBounded) {i : ℕ} :
    i ∈ t.logReads mem ↔
      t.arg.address ≤ i ∧ i < t.arg.address + min (2 ^ 64) (strlen mem t.arg.address + 1) ∨
        t.arg.address ≤ i ∧ i < t.arg.address + strlen mem t.arg.address := by
  rw [Taken.logReads, List.mem_append, mem_nulReads, List.mem_range'_1, h.size_eq,
    Nat.add_sub_cancel]
  rfl

lemma Taken.IsBounded.mem_directReads (h : t.IsBounded) {i : ℕ} :
    i ∈ t.directReads mem ↔ t.arg.address ≤ i ∧
      i < t.arg.address + min t.prec.toNat (nulIndex mem t.prec.toNat t.arg.address + 1) := by
  have hlimit : stringLimit t.prec = t.prec.toNat := if_pos h.2.2.2
  have hle := nulIndex_le mem t.prec.toNat t.arg.address
  rw [Taken.directReads, List.mem_append, mem_nulReads, List.mem_range'_1, hlimit]
  omega

/-- The size and the copy depend on nothing but what `TZ_LOG` reads. -/
lemma size_congr_of_logReads (h : t.IsBounded) (hsame : ∀ i ∈ t.logReads mem, mem' i = mem i) :
    t.size mem' = t.size mem ∧ t.stringBytes mem' = t.stringBytes mem := by
  have hlen : strlen mem' t.arg.address = strlen mem t.arg.address := by
    refine nulIndex_congr (slice_congr fun i hi hi' => hsame i ?_)
    exact h.mem_logReads.mpr (.inl ⟨hi, hi'⟩)
  have hsize : t.size mem' = t.size mem := by rw [h.size_eq, h.size_eq, hlen]
  refine ⟨hsize, ?_⟩
  rw [Taken.stringBytes, Taken.stringBytes, hsize]
  have hcopied : copiedNul t.SI t.arg = some 1 := by
    obtain ⟨hs, hl, ⟨isConst, htype⟩, -⟩ := h
    simp [copiedNul, hs, hl, htype, CType.toCharPtr]
  simp only [hcopied]
  congr 1
  refine slice_congr fun i hi hi' => hsame i (h.mem_logReads.mpr (.inr ⟨hi, ?_⟩))
  rwa [h.size_eq, Nat.add_sub_cancel] at hi'

/-- The text depends on nothing but what direct formatting reads. -/
lemma text_congr_of_directReads (h : t.IsBounded)
    (hsame : ∀ i ∈ t.directReads mem, mem' i = mem i) (lib : CLib) (fmt : List Char) :
    t.text lib fmt mem' = t.text lib fmt mem := by
  refine emitted_congr (.of_frame fun i hi hi' => hsame i (h.mem_directReads.mpr ⟨hi, ?_⟩)) lib fmt
  obtain ⟨hs, hl, ⟨isConst, htype⟩, hprec⟩ := h
  have hlimit : stringLimit t.prec = t.prec.toNat := if_pos hprec
  have hlen : stringLength t.SI t.arg t.prec mem =
      min t.prec.toNat (nulIndex mem t.prec.toNat t.arg.address + 1) := by
    simp [stringLength, hs, hl, htype, hlimit, CType.toCharPtr]
  rw [← hlen]
  exact hi'

/-- **One string.** `TZ_LOG` reads no more of it exactly if it ends within the precision. -/
lemma logReads_subset_iff (h : t.IsBounded) (hprec : t.prec ≤ intMax) :
    t.logReads mem ⊆ t.directReads mem ↔ t.EndsInPrec mem := by
  have hP : t.prec.toNat < 2 ^ 64 := by
    rw [intMax] at hprec
    omega
  rw [Taken.EndsInPrec, ← nulIndex_lt_iff]
  constructor
  · intro hsub
    by_contra hge
    have hle := nulIndex_le mem t.prec.toNat t.arg.address
    -- without a NUL, the byte behind the precision is read
    have hlen : t.prec.toNat ≤ strlen mem t.arg.address := by
      by_contra hlt
      have hlt' : strlen mem t.arg.address < 2 ^ 64 := by omega
      have hmin := nulIndex_eq_min hlt' t.prec.toNat
      rw [← strlen] at hmin
      omega
    have hread := hsub (h.mem_logReads.mpr (.inl
      ⟨Nat.le_add_right t.arg.address t.prec.toNat, by omega⟩))
    have hbound := (h.mem_directReads.mp hread).2
    omega
  · intro hlt i hi
    have hlen : strlen mem t.arg.address = nulIndex mem t.prec.toNat t.arg.address := by
      have hmin := nulIndex_eq_min hlt (2 ^ 64)
      rw [← strlen] at hmin
      omega
    rw [h.mem_directReads]
    rcases h.mem_logReads.mp hi with hi | hi <;> omega

/-! ### Precisions -/

/-- A token leaves the precision, takes it from an argument, or reads its digits. -/
lemma prec_readToken (c : Char) (cs : List Char) (f : SpecFields) :
    (readToken c cs f).1.prec = f.prec ∨ (readToken c cs f).1.prec = dynamicPrecision ∨
      (readToken c cs f).1.prec = numeralFrom 0 (cs.takeWhile isDigit) := by
  by_cases hdot : c = '.'
  · subst hdot
    by_cases hstar : cs.head? = some '*'
    · exact .inr (.inl (by simp [readToken, hstar]))
    · exact .inr (.inr (by simp [readToken, hstar]))
  · refine .inl ?_
    simp only [readToken, if_neg hdot, apply_ite Prod.fst, apply_ite SpecFields.prec, ite_self]

lemma prec_readWord {w : List Char} (hfit : FitsInt w) (skip : ℕ) {f : SpecFields}
    (hf : f.prec ≤ intMax) : (readWord skip w f).prec ≤ intMax := by
  induction w generalizing skip f with
  | nil =>
      cases skip <;> exact hf
  | cons c cs ih =>
      have htail : FitsInt cs := hfit.suffix (List.suffix_cons c cs)
      cases skip with
      | succ skip => exact ih htail skip hf
      | zero =>
          refine ih htail _ ?_
          rcases prec_readToken c cs f with h | h | h
          · rw [h]
            exact hf
          · rw [h]
            decide
          · rw [h]
            exact htail.digits

/-- No precision that is written in a format exceeds an `int`. -/
lemma prec_le_of_format {f : List Char} (hf : nul ∉ f) (hfit : ∀ p ∈ scan f, p.FitsInt)
    {SIs : List SpecInfo} (hSIs : specInfos (f ++ [nul]) = .ok SIs) {SI : SpecInfo}
    (hSI : SI ∈ SIs) : SI.prec ≤ intMax := by
  rw [specInfos_eq hf hfit] at hSIs
  rw [← Except.ok.inj hSIs] at hSI
  obtain ⟨i, -, rfl⟩ := List.mem_map.mp hSI
  show (fieldsAt (scan f) i).prec ≤ intMax
  rw [fieldsAt]
  cases hspec : specAt (scan f) i with
  | none => decide
  | some wt =>
      obtain ⟨w, t⟩ := wt
      exact prec_readWord (fitsInt_specAt hfit hspec) 0 (by decide)

lemma formattedPrec_le (d : Arg) : formattedPrec d ≤ intMax := by
  rw [formattedPrec]
  split
  · have hbounds := (wrapS_bounds (w := 32) (by decide) (Arg.intValue ‹_› d.bytes)).2
    rw [intMax]
    omega
  · decide

lemma widthPrec_le (SI : SpecInfo) (ds : List Arg) : (widthPrec SI ds).2 ≤ intMax := by
  have hnone : (-1 : ℤ) ≤ intMax := by decide
  rcases ds with _ | ⟨d₁, _ | ⟨d₂, _ | _⟩⟩
  · exact hnone
  · simp only [widthPrec]
    split_ifs
    · exact hnone
    · exact formattedPrec_le d₁
  · simp only [widthPrec]
    split_ifs
    · exact formattedPrec_le d₂
    · exact formattedPrec_le d₁
  · exact hnone

/-- Nor does one that is given by an argument. -/
lemma Taken.prec_le (t : Taken Arg) (h : t.SI.prec ≤ intMax) : t.prec ≤ intMax := by
  have hP : t.P ≤ intMax := widthPrec_le t.SI t.ds
  rw [Taken.prec, resolve_prec]
  split_ifs
  · decide
  · exact hP
  · exact h

/-! ### Whole calls -/

/-- What deferred formatting should do with bounded strings: it prints what direct formatting
prints, and it reads no more of them. -/
def DefersBounded (SIs : List SpecInfo) (args : List Arg) (s : Storage) : Prop :=
  DefersFormatting SIs args s ∧
    ∀ ts, takeAll SIs args = some ts → ∀ t ∈ ts, t.IsBounded →
      t.logReads s.mem ⊆ t.directReads s.mem

/-- **Deferring a bounded string** reads no more than formatting it exactly if every array that is
printed with a precision has a NUL within it. -/
theorem defersBounded_iff {f : List Char} (hf : nul ∉ f) (hfit : ∀ p ∈ scan f, p.FitsInt)
    {SIs : List SpecInfo} (hSIs : specInfos (f ++ [nul]) = .ok SIs) {args : List Arg}
    (hargs : countArgsRequired SIs ≤ args.length) (s : Storage) :
    DefersBounded SIs args s ↔
      ∀ ts, takeAll SIs args = some ts → ∀ t ∈ ts, t.IsBounded → t.EndsInPrec s.mem := by
  have hiff : ∀ ts, takeAll SIs args = some ts → ∀ t ∈ ts, t.IsBounded →
      (t.logReads s.mem ⊆ t.directReads s.mem ↔ t.EndsInPrec s.mem) := by
    intro ts hts t ht hbounded
    exact logReads_subset_iff hbounded
      (t.prec_le (prec_le_of_format hf hfit hSIs (takeAll_mem hts t ht).1))
  constructor
  · intro h ts hts t ht hbounded
    exact (hiff ts hts t ht hbounded).mp (h.2 ts hts t ht hbounded)
  · intro h
    refine ⟨defersFormatting_of_isPack (isPack_specInfos hf hfit hSIs) hargs s, ?_⟩
    intro ts hts t ht hbounded
    exact (hiff ts hts t ht hbounded).mpr (h ts hts t ht hbounded)

/-- `TZ_LOG(severity, "%d: %.5s", 7, p)`, of the string "ab". -/
theorem defersBounded_iff_ab :
    ∃ SIs, specInfos ("%d: %.5s".toList ++ [nul]) = .ok SIs ∧
      DefersBounded SIs [IntSpec.intArg 7, strArg 4096]
        { storage := 64, storage2 := 0
          mem := fun i => if i = 4096 then 97 else if i = 4097 then 98 else 0 } := by
  refine ⟨_, rfl, (defersBounded_iff (f := "%d: %.5s".toList) (by decide) (by decide) rfl
    (by decide) _).mpr ?_⟩
  intro ts hts t ht hbounded
  obtain rfl := Option.some.inj hts
  simp only [List.mem_cons, List.not_mem_nil, or_false] at ht
  rcases ht with rfl | rfl
  · exact absurd hbounded.1 (by decide)
  · exact ⟨2, by decide, rfl⟩

/-- `"%.1s"` of the array "A", which has no '\0'; the bytes behind it are not its own. -/
theorem defersBounded_unterminated :
    ∃ SIs ts t, specInfos ("%.1s".toList ++ [nul]) = .ok SIs ∧
      takeAll SIs [strArg 4096] = some ts ∧ t ∈ ts ∧ t.IsBounded ∧
      ∀ mem : Mem, mem 4096 = 65 →
        4097 ∈ t.logReads mem ∧ 4097 ∉ t.directReads mem := by
  obtain ⟨SIs, t, hSIs, hts, hbounded, haddr, hprec⟩ : ∃ SIs t,
      specInfos ("%.1s".toList ++ [nul]) = .ok SIs ∧ takeAll SIs [strArg 4096] = some [t] ∧
        t.IsBounded ∧ t.arg.address = 4096 ∧ t.prec = 1 :=
    ⟨_, _, rfl, rfl, ⟨rfl, rfl, ⟨_, rfl⟩, by decide⟩, rfl, rfl⟩
  refine ⟨SIs, [t], t, hSIs, hts, List.mem_singleton.mpr rfl, hbounded, fun mem hmem => ⟨?_, ?_⟩⟩
  · have hpos : strlen mem 4096 ≠ 0 := by
      intro hzero
      have hlt : nulIndex mem (2 ^ 64) 4096 < 2 ^ 64 := by
        rw [← strlen, hzero]
        decide
      have hnul := mem_nulIndex hlt
      rw [← strlen, hzero, Nat.add_zero, hmem] at hnul
      exact absurd hnul (by decide)
    refine hbounded.mem_logReads.mpr (.inl ?_)
    rw [haddr]
    omega
  · intro hread
    have hlt := (hbounded.mem_directReads.mp hread).2
    rw [haddr, hprec] at hlt
    omega

end ConstexprFmtStr
