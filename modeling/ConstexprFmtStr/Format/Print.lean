import Mathlib.Tactic
import ConstexprFmtStr.Format.Emitted
import ConstexprFmtStr.Format.OneSpec

/-!
`CFMT_STR` prints what the reference scan says.

* `takeArgs`, `widthPrec`: the arguments that a specifier takes, and the width and precision they
  give; `converterImpl_cons` is one round of `converter_impl` in these terms, `checkedImpl_cons` one
  of a call that has to compile.
* `printPieces`: the pieces of a scan printed from left to right.
* `cfmtStr_scan`: all the scanners agree with the scan, and `CFMT_STR` prints its pieces.
-/

namespace ConstexprFmtStr

open Slice Word

/-! ### The arguments of one specifier -/

/-- The first arguments for width and precision, the argument to print, and those that are
left; `none` if there are too few. -/
def takeArgs {α : Type*} (SI : SpecInfo) (args : List α) : Option (List α × α × List α) :=
  match args.drop (numDynamic SI) with
  | arg :: rest => some (args.take (numDynamic SI), arg, rest)
  | [] => none

/-- The width and the precision that `converter_single` is called with. -/
def widthPrec (SI : SpecInfo) (ds : List Arg) : ℤ × ℤ :=
  match ds with
  | [d₁, d₂] =>
      if SI.wFirst then (formattedWidth d₁, formattedPrec d₂)
      else (formattedWidth d₂, formattedPrec d₁)
  | [d] => if SI.width = dynamicWidth then (formattedWidth d, -1) else (0, formattedPrec d)
  | _ => (0, -1)

/-- One specifier printed with the arguments it takes, if it compiles. -/
def printSpec (lib : CLib) (fmt : List Char) (SI : SpecInfo) (args : List Arg) (out : OutbufArg) :
    Option (OutbufArg × List Arg) :=
  (takeArgs SI args).bind fun (ds, arg, rest) =>
    if castCompiles SI arg.type then
      some (converterSingle lib fmt SI arg (widthPrec SI ds).1 (widthPrec SI ds).2 out, rest)
    else none

/-- One round of `converter_impl`. -/
lemma converterImpl_cons (lib : CLib) (fmt : List Char) (SI : SpecInfo) {SIs : List SpecInfo}
    (hne : SIs ≠ []) (args : List Arg) (out : OutbufArg) :
    converterImpl lib fmt (SI :: SIs) args out =
      (takeArgs SI args).bind fun (ds, arg, rest) =>
        converterImpl lib fmt SIs rest
          (converterSingle lib fmt SI arg (widthPrec SI ds).1 (widthPrec SI ds).2 out) := by
  obtain ⟨SI', SIs, rfl⟩ := List.exists_cons_of_ne_nil hne
  simp only [converterImpl, takeArgs, numDynamic, widthPrec]
  by_cases hw : SI.width = dynamicWidth <;> by_cases hp : SI.prec = dynamicPrecision <;>
    cases SI.wFirst <;> rcases args with _ | ⟨d₁, _ | ⟨d₂, _ | ⟨arg, rest⟩⟩⟩ <;> simp [hw, hp]

/-- The casts of one round, and those of the rounds behind it. -/
lemma castsCompile_cons (SI : SpecInfo) {SIs : List SpecInfo} (hne : SIs ≠ []) (args : List Arg) :
    castsCompile (SI :: SIs) (args.map Arg.type) =
      match takeArgs SI args with
      | some (_, arg, rest) => castCompiles SI arg.type && castsCompile SIs (rest.map Arg.type)
      | none => true := by
  obtain ⟨SI', SIs, rfl⟩ := List.exists_cons_of_ne_nil hne
  rw [castsCompile, ← List.map_drop, takeArgs]
  cases args.drop (numDynamic SI) <;> rfl

/-- **One round of a call**, which does not compile if one of its casts does not. -/
lemma checkedImpl_cons (lib : CLib) (fmt : List Char) (SI : SpecInfo) {SIs : List SpecInfo}
    (hne : SIs ≠ []) (args : List Arg) (out : OutbufArg) :
    (if castsCompile (SI :: SIs) (args.map Arg.type) then
      converterImpl lib fmt (SI :: SIs) args out else none) =
      (printSpec lib fmt SI args out).bind fun (out, rest) =>
        if castsCompile SIs (rest.map Arg.type) then converterImpl lib fmt SIs rest out
        else none := by
  rw [converterImpl_cons lib fmt SI hne, castsCompile_cons SI hne, printSpec]
  cases takeArgs SI args with
  | none => rfl
  | some r =>
      obtain ⟨ds, arg, rest⟩ := r
      cases hcast : castCompiles SI arg.type <;> simp [hcast]

lemma takeArgs_none {α : Type*} {SI : SpecInfo} {args : List α} :
    takeArgs SI args = none ↔ args.length ≤ numDynamic SI := by
  rw [takeArgs, ← List.drop_eq_nil_iff]
  cases args.drop (numDynamic SI) <;> simp

/-- The arguments taken stand at the front. -/
lemma takeArgs_some {α : Type*} {SI : SpecInfo} {args ds rest : List α} {arg : α}
    (h : takeArgs SI args = some (ds, arg, rest)) :
    args = ds ++ arg :: rest ∧ ds.length = numDynamic SI := by
  rw [takeArgs] at h
  cases hdrop : args.drop (numDynamic SI) with
  | nil => simp [hdrop] at h
  | cons a as =>
      have hlt : numDynamic SI < args.length := by
        by_contra hle
        rw [List.drop_eq_nil_of_le (not_lt.mp hle)] at hdrop
        exact absurd hdrop (by simp)
      simp only [hdrop, Option.some.injEq, Prod.mk.injEq] at h
      obtain ⟨rfl, rfl, rfl⟩ := h
      exact ⟨by rw [← hdrop, List.take_append_drop], by rw [List.length_take]; omega⟩

/-! ### The pieces of a scan -/

/-- The pieces printed from left to right: literal text as it is, and each specifier, read on
its own, with the arguments it takes. -/
def printPieces (lib : CLib) : List Piece → List Arg → OutbufArg → Option OutbufArg
  | [], _, out => some out
  | .lit c :: ps, args, out => printPieces lib ps args (out.write (charBytes [c]))
  | .spec w t :: ps, args, out =>
      (printSpec lib [] ((wordFields w t).specInfo 0 0) args out).bind fun (out, rest) =>
        printPieces lib ps rest out

/-- The number of arguments that the specifiers among the pieces take. -/
def piecesArgs : List Piece → ℕ
  | [] => 0
  | .lit _ :: ps => piecesArgs ps
  | .spec w t :: ps => numDynamic ((wordFields w t).specInfo 0 0) + 1 + piecesArgs ps

lemma piecesArgs_eq (ps : List Piece) :
    piecesArgs ps =
      match firstSpec ps with
      | none => 0
      | some (w, t) =>
          numDynamic ((wordFields w t).specInfo 0 0) + 1 + piecesArgs (afterSpecs ps 1) := by
  induction ps with
  | nil => rfl
  | cons p ps ih =>
      cases p with
      | lit c => rw [piecesArgs, ih, firstSpec, afterSpecs]
      | spec w t => simp [piecesArgs, firstSpec, afterSpecs]

/-- Too few arguments are noticed. -/
lemma printPieces_none {lib : CLib} {ps : List Piece} {args : List Arg} {out : OutbufArg}
    (h : args.length < piecesArgs ps) : printPieces lib ps args out = none := by
  induction ps generalizing args out with
  | nil => exact absurd h (Nat.not_lt_zero _)
  | cons p ps ih =>
      cases p with
      | lit c => exact ih h
      | spec w t =>
          rw [printPieces, printSpec]
          cases htake : takeArgs ((wordFields w t).specInfo 0 0) args with
          | none => rfl
          | some a =>
              obtain ⟨ds, arg, rest⟩ := a
              obtain ⟨hargs, hds⟩ := takeArgs_some htake
              have hlen := congrArg List.length hargs
              rw [List.length_append, List.length_cons] at hlen
              rw [piecesArgs] at h
              rw [Option.bind_some]
              dsimp only
              split_ifs
              · exact ih (show rest.length < _ by omega)
              · rfl

/-- The literal text before the first specifier, then that specifier and the rest. -/
lemma printPieces_eq (lib : CLib) (ps : List Piece) (args : List Arg) (out : OutbufArg) :
    printPieces lib ps args out =
      match firstSpec ps with
      | none => some (out.write (charBytes (leadingLits ps)))
      | some (w, t) =>
          (printSpec lib [] ((wordFields w t).specInfo 0 0) args
            (out.write (charBytes (leadingLits ps)))).bind fun (out, rest) =>
              printPieces lib (afterSpecs ps 1) rest out := by
  induction ps generalizing out with
  | nil => simp [printPieces, firstSpec, leadingLits, charBytes]
  | cons p ps ih =>
      cases p with
      | lit c =>
          rw [printPieces, ih, firstSpec, leadingLits, afterSpecs, OutbufArg.write_append]
          rfl
      | spec w t => simp [printPieces, firstSpec, leadingLits, afterSpecs, charBytes]

lemma afterSpecs_one (ps : List Piece) (i : ℕ) :
    afterSpecs (afterSpecs ps i) 1 = afterSpecs ps (i + 1) := by
  induction ps generalizing i with
  | nil => cases i <;> rfl
  | cons p ps ih =>
      cases i with
      | zero => rfl
      | succ i => cases p <;> simp [afterSpecs, ih]

/-- A specifier prints the text before it, and then what it prints on its own. -/
lemma printSpec_literal (lib : CLib) (fmt : List Char) (f : SpecFields) (b e : ℕ)
    (args : List Arg) (out : OutbufArg) :
    printSpec lib fmt (f.specInfo b e) args out =
      printSpec lib [] (f.specInfo 0 0) args
        (out.write (literalText fmt (f.specInfo b e))) := by
  have hsingle : ∀ arg W P, converterSingle lib fmt (f.specInfo b e) arg W P out =
      converterSingle lib [] (f.specInfo 0 0) arg W P
        (out.write (literalText fmt (f.specInfo b e))) := by
    intro arg W P
    have hnil : literalText [] (f.specInfo 0 0) = [] := by simp [literalText, charBytes]
    rw [converterSingle, converterSingle, hnil, OutbufArg.write_nil]
    rfl
  simp only [printSpec, hsingle]
  rfl

/-! ### All scanners together -/

section Scanned

variable {s : List Char}

lemma specAt_isNone (ps : List Piece) (i : ℕ) :
    (specAt ps i).isNone = true ↔ ps.countP Piece.isSpec ≤ i := by
  rw [specAt, firstSpec_isNone, countP_afterSpecs, beq_iff_eq]
  omega

/-- The pack of `SpecInfo`s. -/
lemma specInfos_eq (hs : nul ∉ s) (hfit : ∀ p ∈ scan s, p.FitsInt) :
    specInfos (s ++ [nul]) =
      .ok ((List.range ((scan s).countP Piece.isSpec + 1)).map (specInfoAt (scan s))) := by
  have hmap : ∀ is : List ℕ, (∀ i ∈ is, i ≤ (scan s).countP Piece.isSpec) →
      is.mapM (getOneSpec (s ++ [nul])) = .ok (is.map (specInfoAt (scan s))) := by
    intro is
    induction is with
    | nil => exact fun _ => rfl
    | cons i is ih =>
        intro his
        rw [List.mapM_cons, getOneSpec_eq hs (fun _ _ => fitsInt_specAt hfit)
            (his i List.mem_cons_self), Scan.ok_bind,
          ih fun j hj => his j (List.mem_cons_of_mem _ hj)]
        rfl
  rw [specInfos, countValidSpecInfos_eq hs, Scan.ok_bind]
  exact hmap _ fun i hi => by
    have := List.mem_range.mp hi
    omega

/-- The text before the `i`-th specifier, as `converter_single` finds it. -/
lemma literalText_eq (hlen : s.length < 2 ^ 31) (hs : nul ∉ s) (i : ℕ) :
    literalText (squeezed (scan s) ++ [nul]) (specInfoAt (scan s) i) =
      charBytes (literalBefore (scan s) i) := by
  obtain ⟨hle, hslice⟩ := slice_literalBefore (scan s) i
  have hsqueezed := (reads_scan hs).length_squeezed.1
  have hsize : wrapU 32 (((specInfoAt (scan s) i).end_ : ℤ) - (specInfoAt (scan s) i).begin_) =
      (literalBefore (scan s) i).length := by
    simp only [specInfoAt, SpecFields.specInfo]
    rw [wrapU_of_lt (by omega) (by omega)]
    omega
  rw [literalText, hsize]
  congr 1
  simp only [specInfoAt, SpecFields.specInfo]
  rw [List.drop_append_of_le_length (by omega), List.take_append_of_le_length
    (by rw [List.length_drop]; omega), hslice]

/-- The rounds of `converter_impl` from the `i`-th specifier on, if they compile, print the pieces
from there. -/
lemma checkedImpl_scan (lib : CLib) (hlen : s.length < 2 ^ 31) (hs : nul ∉ s) (k i : ℕ)
    (hi : i + k = (scan s).countP Piece.isSpec) (args : List Arg) (out : OutbufArg) :
    (if castsCompile ((List.range' i (k + 1)).map (specInfoAt (scan s))) (args.map Arg.type) then
      converterImpl lib (squeezed (scan s) ++ [nul])
        ((List.range' i (k + 1)).map (specInfoAt (scan s))) args out else none) =
      printPieces lib (afterSpecs (scan s) i) args out := by
  induction k generalizing i args out with
  | zero =>
      have hnone := (specAt_isNone (scan s) i).mpr (by omega)
      rw [specAt, Option.isNone_iff_eq_none] at hnone
      rw [printPieces_eq, hnone]
      simp only [Nat.zero_add, List.range'_one, List.map_cons, List.map_nil, castsCompile, if_true,
        converterImpl, literalText_eq hlen hs]
      rfl
  | succ k ih =>
      have hsome : ¬ (specAt (scan s) i).isNone = true := by
        rw [specAt_isNone]
        omega
      obtain ⟨⟨w, t⟩, hspec⟩ := Option.ne_none_iff_exists'.mp
        (fun h => hsome (Option.isNone_iff_eq_none.mpr h))
      rw [specAt] at hspec
      have hfields : fieldsAt (scan s) i = wordFields w t := by rw [fieldsAt, specAt, hspec]
      rw [List.range'_succ, List.map_cons, checkedImpl_cons lib _ _ (by simp), specInfoAt,
        printSpec_literal, ← specInfoAt, literalText_eq hlen hs, hfields, printPieces_eq, hspec]
      simp only [literalBefore, ih (i + 1) (by omega), afterSpecs_one]

/-- The arguments that the `static_assert` asks for. -/
lemma countArgsRequired_eq (hs : nul ∉ s) (k i : ℕ)
    (hi : i + k = (scan s).countP Piece.isSpec) :
    countArgsRequired ((List.range' i (k + 1)).map (specInfoAt (scan s))) =
      piecesArgs (afterSpecs (scan s) i) := by
  induction k generalizing i with
  | zero =>
      have hnone := (specAt_isNone (scan s) i).mpr (by omega)
      rw [Option.isNone_iff_eq_none] at hnone
      rw [piecesArgs_eq, ← specAt, hnone]
      simp [countArgsRequired, specInfoAt, fieldsAt, hnone, SpecFields.specInfo, isTerminal_nul,
        dynamicWidth, dynamicPrecision]
  | succ k ih =>
      have hsome : ¬ (specAt (scan s) i).isNone = true := by
        rw [specAt_isNone]
        omega
      obtain ⟨⟨w, t⟩, hspec⟩ := Option.ne_none_iff_exists'.mp
        (fun h => hsome (Option.isNone_iff_eq_none.mpr h))
      have hfields : fieldsAt (scan s) i = wordFields w t := by rw [fieldsAt, hspec]
      have hmem := (afterSpecs_suffix _ _).subset (firstSpec_mem hspec)
      have ht : isTerminal t = true := ((reads_scan hs).mem_spec hmem).2
      have hone : countArgsRequired [specInfoAt (scan s) i] =
          numDynamic ((wordFields w t).specInfo 0 0) + 1 := by
        have hterm : (wordFields w t).terminal = t := rfl
        simp [countArgsRequired, specInfoAt, SpecFields.specInfo, hfields, numDynamic, hterm, ht]
        omega
      rw [specAt] at hspec
      rw [List.range'_succ, List.map_cons, piecesArgs_eq, hspec]
      simp only [afterSpecs_one, ← ih (i + 1) (by omega), ← hone]
      simp [countArgsRequired]

end Scanned

/-- What the scanners must find for the `i`-th of `n` specifiers of a scan. -/
structure SpecFound (ps : List Piece) (i : ℕ) (SI : SpecInfo) : Prop where
  begin_le_end : SI.begin_ ≤ SI.end_
  end_le : SI.end_ ≤ (squeezed ps).length
  literal_eq : ((squeezed ps).drop SI.begin_).take (SI.end_ - SI.begin_) = literalBefore ps i
  spec_eq : ∀ w t, specAt ps i = some (w, t) →
    SI.terminal = t ∧ SI = (wordFields w t).specInfo SI.begin_ SI.end_
  last_eq : specAt ps i = none → SI = { begin_ := SI.begin_, end_ := SI.end_ }

lemma specFound_specInfoAt (ps : List Piece) (i : ℕ) : SpecFound ps i (specInfoAt ps i) := by
  obtain ⟨hle, hslice⟩ := slice_literalBefore ps i
  constructor
  · exact Nat.le_add_right _ _
  · exact hle
  · simpa only [specInfoAt, SpecFields.specInfo, Nat.add_sub_cancel_left] using hslice
  · intro w t hspec
    have hfields : fieldsAt ps i = wordFields w t := by rw [fieldsAt, hspec]
    rw [specInfoAt, hfields]
    exact ⟨rfl, rfl⟩
  · intro hspec
    have hfields : fieldsAt ps i = {} := by rw [fieldsAt, hspec]
    rw [specInfoAt, hfields]
    rfl

/-- **One scan.** For a format that fits the `int N` of the templates, without '\0' and with
widths and precisions that fit an `int`: the counting, squeezing, copying and rescanning
functions all find what the reference scan finds, and `CFMT_STR` prints its pieces in order
(and does not compile if they take more arguments than there are, or a `%n` one that it cannot
cast). -/
theorem cfmtStr_scan {s : List Char} (hlen : ((s ++ [nul]).length : ℤ) ≤ intMax) (hs : nul ∉ s)
    (hfit : ∀ p ∈ scan s, p.FitsInt) :
    countValidSpecInfos (s ++ [nul]) = .ok ((scan s).countP Piece.isSpec) ∧
      squeezeSoundSize (s ++ [nul]) = .ok ((1 + (squeezed (scan s)).length : ℕ) : ℤ) ∧
      runTimeStr (s ++ [nul]) = .ok (squeezed (scan s) ++ [nul]) ∧
      (∀ i ≤ (scan s).countP Piece.isSpec,
        ∃ SI, getOneSpec (s ++ [nul]) i = .ok SI ∧ SpecFound (scan s) i SI) ∧
      specAt (scan s) ((scan s).countP Piece.isSpec) = none ∧
      ∀ lib args out,
        cfmtStrOutbufArg lib (s ++ [nul]) args out = printPieces lib (scan s) args out := by
  have hlt : s.length < 2 ^ 31 := by
    rw [List.length_append, List.length_singleton, intMax] at hlen
    omega
  refine ⟨countValidSpecInfos_eq hs, squeezeSoundSize_eq hs, runTimeStr_eq hs, fun i hi =>
    ⟨_, getOneSpec_eq hs (fun _ _ => fitsInt_specAt hfit) hi, specFound_specInfoAt _ _⟩, ?_,
    fun lib args out => ?_⟩
  · exact Option.isNone_iff_eq_none.mp ((specAt_isNone _ _).mpr le_rfl)
  · have himpl := checkedImpl_scan lib hlt hs _ 0 (Nat.zero_add _) args out
    have hcount := countArgsRequired_eq hs _ 0 (Nat.zero_add _)
    rw [afterSpecs_zero] at himpl hcount
    simp only [cfmtStrOutbufArg, specInfos_eq hs hfit, runTimeStr_eq hs, convertAll,
      List.range_eq_range', hcount, ite_and, himpl]
    split_ifs with hargs
    · rfl
    · exact (printPieces_none (not_le.mp hargs)).symm

/-- A format with a valid, a nested, an invalid and a truncated specifier. -/
theorem cfmtStr_scan_mixed :
    countValidSpecInfos ("a%-5.3dx%%y%hz%s%l".toList ++ [nul]) =
        .ok ((scan "a%-5.3dx%%y%hz%s%l".toList).countP Piece.isSpec) ∧
      ∀ lib args out, cfmtStrOutbufArg lib ("a%-5.3dx%%y%hz%s%l".toList ++ [nul]) args out =
        printPieces lib (scan "a%-5.3dx%%y%hz%s%l".toList) args out := by
  have h := cfmtStr_scan (s := "a%-5.3dx%%y%hz%s%l".toList) (by decide) (by decide) (by decide)
  exact ⟨h.1, h.2.2.2.2.2⟩

end ConstexprFmtStr
