import Mathlib.Tactic
import ConstexprFmtStr.Format.Print
import ConstexprFmtStr.Format.Truncation

/-!
Formats one after the other.

* `scanState`, `Closed`: where the scan stands at the end of a format; `scan_append`.
* `cfmtStrOutbufArg_append`: a format that is put together prints what its parts print in turn.
* `cfmtStrOutbufArg_count`: `%n` stores the length of the text in front of it, truncated by the
  buffer or not, and changes nothing else.
-/

namespace ConstexprFmtStr

open Slice Word

/-! ### The scan of two formats -/

/-- Where the scan stands after a format: outside of a specifier, or after a '%' and a run. -/
def scanState : Option (List Char) → List Char → Option (List Char)
  | st, [] => st
  | none, c :: cs => scanState (if c = '%' then some [] else none) cs
  | some word, c :: cs => scanState (if isSpecChar c then some (word ++ [c]) else none) cs

/-- The format does not end in the middle of a specifier. -/
def Closed (s : List Char) : Prop := scanState none s = none

instance (s : List Char) : Decidable (Closed s) := inferInstanceAs (Decidable (_ = _))

lemma scanFrom_append (st : Option (List Char)) (s t : List Char) :
    scanFrom st (s ++ t) = scanFrom st s ++ scanFrom (scanState st s) t := by
  induction s generalizing st with
  | nil => cases st <;> rfl
  | cons c s ih =>
      cases st with
      | none =>
          rw [List.cons_append, scanFrom, scanFrom, scanState]
          split_ifs
          · exact ih _
          · rw [ih, List.cons_append]
      | some word =>
          rw [List.cons_append, scanFrom, scanFrom, scanState]
          split_ifs
          · exact ih _
          all_goals rw [ih, List.cons_append]

/-- **The scan of two formats** is one after the other, if the first is closed. -/
lemma scan_append {s : List Char} (hs : Closed s) (t : List Char) :
    scan (s ++ t) = scan s ++ scan t := by
  rw [scan, scanFrom_append, show scanState none s = none from hs, scan, scan]

lemma takeArgs_append {α : Type*} {SI : SpecInfo} {as ds rest : List α} {arg : α}
    (h : takeArgs SI as = some (ds, arg, rest)) (bs : List α) :
    takeArgs SI (as ++ bs) = some (ds, arg, rest ++ bs) := by
  obtain ⟨rfl, hds⟩ := takeArgs_some h
  rw [takeArgs, ← hds, List.append_assoc, List.drop_left, List.take_left, List.cons_append]

/-- The pieces of the first format take their arguments, and leave the others to the second. -/
lemma printPieces_append (lib : CLib) (ps qs : List Piece) {as : List Arg}
    (has : as.length = piecesArgs ps) (bs : List Arg) (out : OutbufArg) :
    printPieces lib (ps ++ qs) (as ++ bs) out =
      (printPieces lib ps as out).bind (printPieces lib qs bs) := by
  induction ps generalizing as out with
  | nil =>
      obtain rfl : as = [] := List.length_eq_zero_iff.mp has
      rfl
  | cons p ps ih =>
      cases p with
      | lit c => exact ih has _
      | spec w t =>
          rw [piecesArgs] at has
          cases htake : takeArgs ((wordFields w t).specInfo 0 0) as with
          | none =>
              rw [takeArgs_none] at htake
              omega
          | some r =>
              obtain ⟨ds, arg, rest⟩ := r
              obtain ⟨hargs, hds⟩ := takeArgs_some htake
              have hlen := congrArg List.length hargs
              rw [List.length_append, List.length_cons] at hlen
              simp only [List.cons_append, printPieces, printSpec, htake, takeArgs_append htake,
                Option.bind_some]
              split_ifs
              · exact ih (by omega) _
              · rfl

/-! ### Two formats in one call -/

section Call

variable {f g : List Char}

/-- A call prints the pieces of its format. -/
lemma cfmtStrOutbufArg_pieces (hlen : ((f ++ [nul]).length : ℤ) ≤ intMax) (hf : nul ∉ f)
    (hfit : ∀ p ∈ scan f, p.FitsInt) (lib : CLib) (args : List Arg) (out : OutbufArg) :
    cfmtStrOutbufArg lib (f ++ [nul]) args out = printPieces lib (scan f) args out := by
  have hlt : f.length < 2 ^ 31 := by
    rw [List.length_append, List.length_singleton, intMax] at hlen
    omega
  have himpl := checkedImpl_scan lib hlt hf _ 0 (Nat.zero_add _) args out
  have hcount := countArgsRequired_eq hf _ 0 (Nat.zero_add _)
  rw [afterSpecs_zero] at himpl hcount
  simp only [cfmtStrOutbufArg, specInfos_eq hf hfit, runTimeStr_eq hf, convertAll,
    List.range_eq_range', hcount, ite_and, himpl]
  split_ifs with hargs
  · rfl
  · exact (printPieces_none (not_le.mp hargs)).symm

/-- The arguments that the specifiers of a format take. -/
lemma countArgsRequired_specInfos (hf : nul ∉ f) (hfit : ∀ p ∈ scan f, p.FitsInt)
    {SIs : List SpecInfo} (hSIs : specInfos (f ++ [nul]) = .ok SIs) :
    countArgsRequired SIs = piecesArgs (scan f) := by
  have hcount := countArgsRequired_eq hf _ 0 (Nat.zero_add _)
  rw [afterSpecs_zero] at hcount
  rw [specInfos_eq hf hfit, List.range_eq_range'] at hSIs
  rw [← Except.ok.inj hSIs, hcount]

/-- The pieces of two formats, printed in two calls. -/
lemma cfmtStrOutbufArg_pieces_append (lib : CLib)
    (hlen : ((f ++ g ++ [nul]).length : ℤ) ≤ intMax) (hf : nul ∉ f) (hg : nul ∉ g)
    (hfitf : ∀ p ∈ scan f, p.FitsInt) (hfitg : ∀ p ∈ scan g, p.FitsInt) (hclosed : Closed f)
    {as : List Arg} (has : as.length = piecesArgs (scan f)) (bs : List Arg) (out : OutbufArg) :
    cfmtStrOutbufArg lib (f ++ g ++ [nul]) (as ++ bs) out =
      (cfmtStrOutbufArg lib (f ++ [nul]) as out).bind (printPieces lib (scan g) bs) := by
  have hscan := scan_append hclosed g
  have hfit : ∀ p ∈ scan (f ++ g), p.FitsInt := by
    intro p hp
    rw [hscan, List.mem_append] at hp
    exact hp.elim (hfitf p) (hfitg p)
  have hnul : nul ∉ f ++ g := by
    rw [List.mem_append, not_or]
    exact ⟨hf, hg⟩
  have hlenf : ((f ++ [nul]).length : ℤ) ≤ intMax := by
    simp only [List.length_append, List.length_singleton, Nat.cast_add, Nat.cast_one] at hlen ⊢
    omega
  rw [cfmtStrOutbufArg_pieces hlen hnul hfit, hscan, printPieces_append lib _ _ has,
    cfmtStrOutbufArg_pieces hlenf hf hfitf]

/-- **Formats compose.** A format that consists of a closed one and another prints, with the
arguments of the one followed by those of the other, what the two print one after the other; it
compiles if both do. -/
theorem cfmtStrOutbufArg_append (lib : CLib) (hlen : ((f ++ g ++ [nul]).length : ℤ) ≤ intMax)
    (hf : nul ∉ f) (hg : nul ∉ g) (hfitf : ∀ p ∈ scan f, p.FitsInt)
    (hfitg : ∀ p ∈ scan g, p.FitsInt) (hclosed : Closed f) {SIs : List SpecInfo}
    (hSIs : specInfos (f ++ [nul]) = .ok SIs) {as : List Arg}
    (has : as.length = countArgsRequired SIs) (bs : List Arg) (out : OutbufArg) :
    cfmtStrOutbufArg lib (f ++ g ++ [nul]) (as ++ bs) out =
      (cfmtStrOutbufArg lib (f ++ [nul]) as out).bind
        (cfmtStrOutbufArg lib (g ++ [nul]) bs) := by
  have hleng : ((g ++ [nul]).length : ℤ) ≤ intMax := by
    simp only [List.length_append, List.length_singleton, Nat.cast_add, Nat.cast_one] at hlen ⊢
    omega
  rw [cfmtStrOutbufArg_pieces_append lib hlen hf hg hfitf hfitg hclosed
    (has.trans (countArgsRequired_specInfos hf hfitf hSIs))]
  exact congrArg _ (funext fun out => (cfmtStrOutbufArg_pieces hleng hg hfitg lib bs out).symm)

/-- "a%d" and "%5s%%d", with 7 and the empty string at the address 64. -/
theorem cfmtStrOutbufArg_append_ds :
    cfmtStrOutbufArg CLib.ascii ("a%d".toList ++ "%5s%%d".toList ++ [nul])
        ([IntSpec.intArg 7] ++ [strArg 64]) (.new (fun _ => 0) 0 8) =
      (cfmtStrOutbufArg CLib.ascii ("a%d".toList ++ [nul]) [IntSpec.intArg 7]
        (.new (fun _ => 0) 0 8)).bind
        (cfmtStrOutbufArg CLib.ascii ("%5s%%d".toList ++ [nul]) [strArg 64]) :=
  cfmtStrOutbufArg_append CLib.ascii (by decide) (by decide) (by decide) (by decide) (by decide)
    (by decide) rfl rfl [strArg 64] (.new (fun _ => 0) 0 8)

/-! ### `%n` -/

lemma scanFrom_word {w : List Char} (hw : IsWord w) (v : List Char) (t : Char) (s : List Char) :
    scanFrom (some v) (w ++ t :: s) = scanFrom (some (v ++ w)) (t :: s) := by
  induction w generalizing v with
  | nil => rw [List.nil_append, List.append_nil]
  | cons c w ih =>
      rw [List.cons_append, scanFrom, if_pos (hw c List.mem_cons_self),
        ih fun d hd => hw d (List.mem_cons_of_mem _ hd), List.append_assoc, List.singleton_append]

/-- A format that is one specifier. -/
lemma scan_spec {w : List Char} (hw : IsWord w) {t : Char} (ht : isTerminal t = true) :
    scan ('%' :: (w ++ [t])) = [.spec w t] := by
  rw [scan, scanFrom, if_pos rfl, scanFrom_word hw, List.nil_append, scanFrom,
    if_neg (by rw [specChar_of_terminal ht]; simp), if_pos ht]
  rfl

lemma IsWord.nul_notMem {w : List Char} (hw : IsWord w) : nul ∉ w := fun h =>
  absurd (hw nul h) (by decide)

/-- `%n`, with its modifiers, counts what was asked for so far. -/
lemma printPieces_count (lib : CLib) {w : List Char} {ds : List Arg}
    (hds : ds.length = numDynamic ((wordFields w 'n').specInfo 0 0)) {p : Arg}
    (hp : p.type.toIntPtr = true) (out : OutbufArg) :
    printPieces lib [.spec w 'n'] (ds ++ [p]) out =
      some { out with
        mem := writeAt out.mem p.address
          (leBytes (countSize ((wordFields w 'n').specInfo 0 0).flags) out.written.toNat) } := by
  have htake : takeArgs ((wordFields w 'n').specInfo 0 0) (ds ++ [p]) = some (ds, p, []) := by
    rw [takeArgs, ← hds, List.drop_left, List.take_left]
  have hterminal : ((wordFields w 'n').specInfo 0 0).terminal = 'n' := rfl
  have hliteral : literalText [] ((wordFields w 'n').specInfo 0 0) = [] := by
    simp [literalText, charBytes]
  have hcast : castCompiles ((wordFields w 'n').specInfo 0 0) p.type = true := by
    simp [castCompiles, hp]
  simp only [printPieces, printSpec, htake, Option.bind_some, hcast, converterSingle, hliteral,
    OutbufArg.write_nil, hterminal, if_true, storeCount, CType.toVoidPtr_of_toIntPtr hp]

/-- **`%n`.** After a closed format without `%n`, none of whose strings lies in the free part of
the buffer, a `%n` with any modifiers stores, through a pointer to what is not const and in the size
that its length modifier names, how many bytes that format asks for, whether the buffer took them or
not; it prints nothing itself. -/
theorem cfmtStrOutbufArg_count (lib : CLib) {w : List Char} (hw : IsWord w)
    (hlen : ((f ++ '%' :: (w ++ ['n']) ++ [nul]).length : ℤ) ≤ intMax) (hf : nul ∉ f)
    (hfitf : ∀ p ∈ scan f, p.FitsInt) (hfitw : FitsInt w) (hclosed : Closed f)
    {SIs : List SpecInfo} (hSIs : specInfos (f ++ [nul]) = .ok SIs) {as : List Arg}
    (has : as.length = countArgsRequired SIs) {d : List Char × List (Taken Arg) × SpecInfo}
    (hd : dealt (f ++ [nul]) as = some d) (hn : ∀ t ∈ d.2.1, t.SI.terminal ≠ 'n')
    {out : OutbufArg} (hfree : ∀ t ∈ d.2.1, ∀ i, t.StringAt out.mem i → ¬out.Free i)
    {ds : List Arg} (hds : ds.length = numDynamic ((wordFields w 'n').specInfo 0 0)) {p : Arg}
    (hp : p.type.toIntPtr = true) :
    cfmtStrOutbufArg lib (f ++ '%' :: (w ++ ['n']) ++ [nul]) (as ++ (ds ++ [p])) out =
      some { out.write (dealtText lib out.mem d) with
        mem := writeAt (out.write (dealtText lib out.mem d)).mem p.address
          (leBytes (countSize ((wordFields w 'n').specInfo 0 0).flags)
            (out.written + UInt64.ofNat (dealtText lib out.mem d).length).toNat) } := by
  have hspec := scan_spec hw (t := 'n') rfl
  have hg : nul ∉ '%' :: (w ++ ['n']) := by
    simp [hw.nul_notMem, nul]
  have hfitg : ∀ p ∈ scan ('%' :: (w ++ ['n'])), p.FitsInt := by
    intro p hp
    rw [hspec, List.mem_singleton] at hp
    rw [hp]
    exact hfitw
  have hprinted : cfmtStrOutbufArg lib (f ++ [nul]) as out =
      some (out.write (dealtText lib out.mem d)) := by
    obtain ⟨kRTStr, ts, last⟩ := d
    rw [cfmtStrOutbufArg_eq, hd, Option.map_some]
    dsimp only
    rw [foldl_print lib kRTStr hn hfree, OutbufArg.write_append]
    rfl
  have hwritten : (out.write (dealtText lib out.mem d)).written =
      out.written + UInt64.ofNat (dealtText lib out.mem d).length := by
    rw [OutbufArg.write_eq]
    rfl
  rw [cfmtStrOutbufArg_pieces_append lib hlen hf hg hfitf hfitg hclosed
    (has.trans (countArgsRequired_specInfos hf hfitf hSIs)), hprinted, Option.bind_some, hspec,
    printPieces_count lib hds hp, ← hwritten]

/-- A pointer to the address 64. -/
def countPtr : Arg where
  type := .ptr false
  bytes := leBytes 8 64
  length_bytes := length_leBytes 8 64

/-- `CFMT_STR` of "a%d%hn" with 7, into one byte and the '\0': 2 is stored. -/
theorem cfmtStrOutbufArg_count_a : ∃ out,
    cfmtStrOutbufArg CLib.ascii ("a%d".toList ++ "%hn".toList ++ [nul])
      [IntSpec.intArg 7, countPtr] (.new (fun _ => 0) 0 2) = some out ∧
      slice out.mem 64 2 = [2, 0] := by
  have hd : dealt ("a%d".toList ++ [nul]) [IntSpec.intArg 7] = some _ := rfl
  have hw : IsWord ['h'] := fun c hc => by
    rw [List.mem_singleton.mp hc]
    rfl
  have hSIs : specInfos ("a%d".toList ++ [nul]) = .ok _ := rfl
  have has : [IntSpec.intArg 7].length = 1 := rfl
  have hds : ([] : List Arg).length = numDynamic ((wordFields ['h'] 'n').specInfo 0 0) := rfl
  refine ⟨_, cfmtStrOutbufArg_count CLib.ascii hw (by decide) (by decide) (by decide) (by decide)
    (by decide) hSIs has hd (by decide) (fun t ht i hi => ?_) hds (p := countPtr) rfl,
    by decide⟩
  rw [List.mem_singleton] at ht
  rw [ht, Taken.StringAt, stringLength, if_pos (.inl (by decide))] at hi
  omega

end Call

end ConstexprFmtStr
