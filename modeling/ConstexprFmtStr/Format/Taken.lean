import Mathlib.Tactic
import ConstexprFmtStr.Format.Print

/-!
The specifiers of a format, each with the arguments it takes.

* `takeAll`: the arguments dealt out to the specifiers from left to right; `exists_takeAll` says
  that the `static_assert` asks for enough of them. `converterImpl_eq` is `converter_impl` as one
  pass over what is dealt out.
* `Taken.StringAt`: where the string of a specifier is read.
* `takenText`: the text of what is dealt out; `foldl_print` says that it is printed as one text, if
  there is no `%n` and no string in the free part of the buffer.
-/

namespace ConstexprFmtStr

open Slice Word

/-- A specifier with the arguments it takes: those for width and precision, and the one to
print. -/
structure Taken (α : Type*) where
  SI : SpecInfo
  ds : List α
  arg : α

/-- All specifiers but the last, which ends the pack, with the arguments they take; `none` if
there are too few. -/
def takeAll {α : Type*} : List SpecInfo → List α → Option (List (Taken α))
  | [], _ => none
  | [_], _ => some []
  | SI :: SIs, args => do
      let (ds, arg, rest) ← takeArgs SI args
      let ts ← takeAll SIs rest
      return ⟨SI, ds, arg⟩ :: ts

lemma takeAll_cons {α : Type*} (SI : SpecInfo) {SIs : List SpecInfo} (hne : SIs ≠ [])
    (args : List α) :
    takeAll (SI :: SIs) args = (takeArgs SI args).bind fun (ds, arg, rest) =>
      (takeAll SIs rest).map fun ts => ⟨SI, ds, arg⟩ :: ts := by
  obtain ⟨SI', SIs, rfl⟩ := List.exists_cons_of_ne_nil hne
  rw [takeAll]
  · cases takeArgs SI args with
    | none => rfl
    | some r => cases h : takeAll (SI' :: SIs) r.2.2 <;> simp [h]
  · exact hne

lemma takeAll_mem {α : Type*} {SIs : List SpecInfo} {args : List α} {ts : List (Taken α)}
    (h : takeAll SIs args = some ts) : ∀ t ∈ ts, t.SI ∈ SIs ∧ t.ds.length = numDynamic t.SI := by
  induction SIs generalizing args ts with
  | nil => exact absurd h (by simp [takeAll])
  | cons SI SIs ih =>
      intro t ht
      by_cases hne : SIs = []
      · subst hne
        obtain rfl : [] = ts := by simpa [takeAll] using h
        exact absurd ht List.not_mem_nil
      · rw [takeAll_cons SI hne] at h
        obtain ⟨⟨ds, arg, rest⟩, htake, h⟩ := Option.bind_eq_some_iff.mp h
        obtain ⟨ts', hts, rfl⟩ := Option.map_eq_some_iff.mp h
        rcases List.mem_cons.mp ht with rfl | ht
        · exact ⟨List.mem_cons_self, (takeArgs_some htake).2⟩
        · exact ⟨List.mem_cons_of_mem _ (ih hts t ht).1, (ih hts t ht).2⟩

/-! ### Packs -/

/-- The specifiers of a format: each takes an argument, but the last ends the pack. -/
def IsPack : List SpecInfo → Prop
  | [] => False
  | [SI] => isTerminal SI.terminal = false ∧ SI.width ≠ dynamicWidth ∧ SI.prec ≠ dynamicPrecision
  | SI :: SIs => isTerminal SI.terminal = true ∧ IsPack SIs

lemma IsPack.ne_nil {SIs : List SpecInfo} (h : IsPack SIs) : SIs ≠ [] := by
  rintro rfl
  exact h

/-- The packs that `unpack` makes of a format. -/
lemma isPack_specInfos {f : List Char} (hs : nul ∉ f) (hfit : ∀ p ∈ scan f, p.FitsInt)
    {SIs : List SpecInfo} (h : specInfos (f ++ [nul]) = .ok SIs) : IsPack SIs := by
  have hrange : ∀ k i, i + k = (scan f).countP Piece.isSpec →
      IsPack ((List.range' i (k + 1)).map (specInfoAt (scan f))) := by
    intro k
    induction k with
    | zero =>
        intro i hi
        have hnone := (specAt_isNone (scan f) i).mpr (by omega)
        rw [Option.isNone_iff_eq_none] at hnone
        have hfields : fieldsAt (scan f) i = {} := by rw [fieldsAt, hnone]
        simp only [Nat.zero_add, List.range'_one, List.map_cons, List.map_nil, specInfoAt, hfields]
        have hwidth : (0 : ℤ) ≠ dynamicWidth := by decide
        have hprec : (-1 : ℤ) ≠ dynamicPrecision := by decide
        exact ⟨isTerminal_nul, hwidth, hprec⟩
    | succ k ih =>
        intro i hi
        have hsome : ¬(specAt (scan f) i).isNone = true := by
          rw [specAt_isNone]
          omega
        obtain ⟨⟨w, t⟩, hspec⟩ := Option.ne_none_iff_exists'.mp
          (fun h => hsome (Option.isNone_iff_eq_none.mpr h))
        have ht : isTerminal t = true :=
          ((reads_scan hs).mem_spec ((afterSpecs_suffix _ _).subset (firstSpec_mem hspec))).2
        have hfields : fieldsAt (scan f) i = wordFields w t := by rw [fieldsAt, hspec]
        have hrest := ih (i + 1) (by omega)
        rw [List.range'_succ, List.map_cons]
        obtain ⟨SI', SIs', hcons⟩ := List.exists_cons_of_ne_nil hrest.ne_nil
        rw [hcons] at hrest ⊢
        refine ⟨?_, hrest⟩
        rw [specInfoAt, hfields]
        exact ht
  rw [specInfos_eq hs hfit] at h
  rw [← Except.ok.inj h, List.range_eq_range']
  exact hrange _ 0 (Nat.zero_add _)

/-- A pack that does not end is one round, and a pack. -/
lemma IsPack.cons {SI : SpecInfo} {SIs : List SpecInfo} (h : IsPack (SI :: SIs)) (hne : SIs ≠ []) :
    isTerminal SI.terminal = true ∧ IsPack SIs := by
  obtain ⟨SI', SIs, rfl⟩ := List.exists_cons_of_ne_nil hne
  exact h

lemma IsPack.countArgsRequired_last {SI : SpecInfo} (h : IsPack [SI]) :
    countArgsRequired [SI] = 0 := by
  obtain ⟨h1, h2, h3⟩ := h
  simp [countArgsRequired, h1, h2, h3]

lemma countArgsRequired_cons {SI : SpecInfo} (h : isTerminal SI.terminal = true)
    (SIs : List SpecInfo) :
    countArgsRequired (SI :: SIs) = numDynamic SI + 1 + countArgsRequired SIs := by
  simp [countArgsRequired, h, numDynamic]
  omega

/-- The arguments that the `static_assert` asks for are enough. -/
lemma exists_takeAll {α : Type*} {SIs : List SpecInfo} (h : IsPack SIs) {args : List α}
    (hargs : countArgsRequired SIs ≤ args.length) : ∃ ts, takeAll SIs args = some ts := by
  induction SIs generalizing args with
  | nil => exact absurd h id
  | cons SI SIs ih =>
      by_cases htail : SIs = []
      · subst htail
        exact ⟨[], rfl⟩
      · obtain ⟨ht, hrest⟩ := h.cons htail
        rw [countArgsRequired_cons ht] at hargs
        rw [takeAll_cons SI htail]
        cases htake : takeArgs SI args with
        | none =>
            have := takeArgs_none.mp htake
            omega
        | some r =>
            obtain ⟨ds, arg, rest⟩ := r
            have hlen := congrArg List.length (takeArgs_some htake).1
            rw [List.length_append, List.length_cons, (takeArgs_some htake).2] at hlen
            have hrest' : countArgsRequired SIs ≤ rest.length := by omega
            obtain ⟨ts, hts⟩ := ih hrest hrest'
            exact ⟨⟨SI, ds, arg⟩ :: ts, by simp [hts]⟩

/-! ### `converter_impl` -/

namespace Taken

variable (t : Taken Arg)

/-- The argument `W` of `converter_single`. -/
def W : ℤ := (widthPrec t.SI t.ds).1

/-- The argument `P` of `converter_single`. -/
def P : ℤ := (widthPrec t.SI t.ds).2

/-- The precision after it is resolved. -/
def prec : ℤ := (resolve t.SI t.W t.P).2.1

/-- `converter_single` with these arguments. -/
def print (lib : CLib) (fmt : List Char) (out : OutbufArg) : OutbufArg :=
  converterSingle lib fmt t.SI t.arg t.W t.P out

/-- The text printed, off `%n`. -/
def text (lib : CLib) (fmt : List Char) (mem : Mem) : List UInt8 :=
  emitted lib fmt t.SI t.arg t.W t.P mem

/-- The addresses of the string that is read, if one is. -/
def StringAt (mem : Mem) (i : ℕ) : Prop :=
  t.arg.address ≤ i ∧ i < t.arg.address + stringLength t.SI t.arg t.prec mem

end Taken

/-- `converter_impl` deals the arguments out and prints one specifier after the other. -/
lemma converterImpl_eq (lib : CLib) (fmt : List Char) {SIs : List SpecInfo} (hne : SIs ≠ [])
    (args : List Arg) (out : OutbufArg) :
    converterImpl lib fmt SIs args out = (takeAll SIs args).map fun ts =>
      (ts.foldl (fun out t => t.print lib fmt out) out).write
        (literalText fmt (SIs.getLast hne)) := by
  induction SIs generalizing args out with
  | nil => exact absurd rfl hne
  | cons SI SIs ih =>
      by_cases htail : SIs = []
      · subst htail
        rfl
      · rw [converterImpl_cons lib fmt SI htail, takeAll_cons SI htail, List.getLast_cons htail]
        cases takeArgs SI args with
        | none => rfl
        | some r =>
            obtain ⟨ds, arg, rest⟩ := r
            simp only [Option.bind_some, ih htail]
            cases takeAll SIs rest <;> rfl

/-- The casts of a call are those of what is dealt out. -/
lemma castsCompile_iff {SIs : List SpecInfo} {args : List Arg} {ts : List (Taken Arg)}
    (hts : takeAll SIs args = some ts) :
    castsCompile SIs (args.map Arg.type) = true ↔
      ∀ t ∈ ts, castCompiles t.SI t.arg.type = true := by
  induction SIs generalizing args ts with
  | nil => exact absurd hts (by simp [takeAll])
  | cons SI SIs ih =>
      by_cases htail : SIs = []
      · subst htail
        obtain rfl : [] = ts := by simpa [takeAll] using hts
        simp [castsCompile]
      · rw [takeAll_cons SI htail] at hts
        obtain ⟨⟨ds, arg, rest⟩, htake, hts⟩ := Option.bind_eq_some_iff.mp hts
        obtain ⟨ts, hrest, rfl⟩ := Option.map_eq_some_iff.mp hts
        rw [castsCompile_cons SI htail, htake, List.forall_mem_cons, ← ih hrest, Bool.and_eq_true]

/-- Without `%n` there is nothing to cast. -/
lemma castsCompile_of_ne_n {SIs : List SpecInfo} {args : List Arg} {ts : List (Taken Arg)}
    (hts : takeAll SIs args = some ts) (hn : ∀ t ∈ ts, t.SI.terminal ≠ 'n') :
    castsCompile SIs (args.map Arg.type) = true :=
  (castsCompile_iff hts).mpr fun t ht => by simp [castCompiles, hn t ht]

/-! ### The text of a format -/

/-- The text of what is dealt out. -/
def takenText (lib : CLib) (fmt : List Char) (mem : Mem) (ts : List (Taken Arg)) : List UInt8 :=
  ts.flatMap fun t => t.text lib fmt mem

/-- Printing what is dealt out, if it has no `%n` and no string is in the free part of the
buffer. -/
lemma foldl_print (lib : CLib) (fmt : List Char) {ts : List (Taken Arg)} {out : OutbufArg}
    (hn : ∀ t ∈ ts, t.SI.terminal ≠ 'n')
    (hfree : ∀ t ∈ ts, ∀ i, t.StringAt out.mem i → ¬out.Free i) :
    ts.foldl (fun out t => t.print lib fmt out) out =
      out.write (takenText lib fmt out.mem ts) := by
  induction ts generalizing out with
  | nil => exact (OutbufArg.write_nil out).symm
  | cons t ts ih =>
      have hprint : t.print lib fmt out = out.write (t.text lib fmt out.mem) :=
        converterSingle_eq lib fmt (hn t List.mem_cons_self) t.arg t.W t.P fun i hi hi' =>
          hfree t List.mem_cons_self i ⟨hi, hi'⟩
      -- the strings of the others are as they were
      have hsame : ∀ u ∈ ts, SameText u.SI u.prec u.arg out.mem u.arg
          (out.write (t.text lib fmt out.mem)).mem := fun u hu =>
        .of_frame fun i hi hi' =>
          OutbufArg.mem_write_of_not_free (hfree u (List.mem_cons_of_mem _ hu) i ⟨hi, hi'⟩) _
      have htext : takenText lib fmt (out.write (t.text lib fmt out.mem)).mem ts =
          takenText lib fmt out.mem ts := by
        refine List.flatMap_congr fun u hu => ?_
        exact emitted_congr (hsame u hu) lib fmt
      have hrest := ih (fun u hu => hn u (List.mem_cons_of_mem _ hu))
        (show ∀ u ∈ ts, ∀ i, u.StringAt (out.write (t.text lib fmt out.mem)).mem i →
            ¬(out.write (t.text lib fmt out.mem)).Free i from fun u hu i hi hf => by
          rw [Taken.StringAt, (hsame u hu).stringLength_eq] at hi
          exact hfree u (List.mem_cons_of_mem _ hu) i hi (OutbufArg.free_of_free_write hf))
      rw [List.foldl_cons, hprint, hrest, htext, OutbufArg.write_append]
      rfl

end ConstexprFmtStr
