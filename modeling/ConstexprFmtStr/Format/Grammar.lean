import Mathlib.Tactic
import ConstexprFmtStr.Format.IntegerShape
import ConstexprFmtStr.Format.OneSpec
import ConstexprFmtStr.Lib.Munch

/-!
The grammar of what stands between a '%' and its terminal.

* `Token`: the flags, lengths, widths and precisions that a word is made of.
* `munch`: the longest token at the front; `readToken_eq` says that the code reads it.
* `Says`: what a list of tokens says, field by field. `getOneSpec_grammar`: `getOneSpec` finds
  exactly that, for the one way to cut the word.
* `exists_matches`: every integer specifier is one of the specifiers of the integer theorems.
-/

namespace ConstexprFmtStr

open Munch

/-! ### Tokens -/

/-- A token of a modifier word. -/
inductive Token
  /-- '-', '+', ' ', '#' or '0' -/
  | flag (c : Char)
  /-- 'L' -/
  | bigL
  /-- a length modifier -/
  | length (m : Length)
  /-- a static width -/
  | width (digits : List Char)
  /-- '*' -/
  | starWidth
  /-- '.' with the digits behind it -/
  | prec (digits : List Char)
  /-- '.*' -/
  | starPrec
  deriving DecidableEq

/-- The letters of a length modifier. -/
def Length.text : Length → List Char
  | none => []
  | hh => ['h', 'h']
  | h => ['h']
  | l => ['l']
  | ll => ['l', 'l']
  | j => ['j']
  | t => ['t']
  | z => ['z']

namespace Token

/-- The characters of a token. -/
def text : Token → List Char
  | flag c => [c]
  | bigL => ['L']
  | length m => m.text
  | width digits => digits
  | starWidth => ['*']
  | prec digits => '.' :: digits
  | starPrec => ['.', '*']

/-- A width starts with a digit other than '0'. -/
def Valid : Token → Prop
  | flag c => isFlag c = true
  | length m => m ≠ .none
  | width digits => (∃ d ds, digits = d :: ds ∧ d ≠ '0') ∧ ∀ d ∈ digits, isDigit d = true
  | prec digits => ∀ d ∈ digits, isDigit d = true
  | _ => True

/-- The width that a token says. -/
def width? : Token → Option ℤ
  | width digits => some (numeralFrom 0 digits)
  | starWidth => some dynamicWidth
  | _ => none

/-- The precision that a token says, 0 for '.' alone. -/
def prec? : Token → Option ℤ
  | prec digits => some (numeralFrom 0 digits)
  | starPrec => some dynamicPrecision
  | _ => none

/-- The length modifier that a token is. -/
def length? : Token → Option Length
  | length m => some m
  | _ => none

end Token

/-- What the tokens of a word say, before the terminal `t`. -/
structure Says (toks : List Token) (t : Char) (SI : SpecInfo) : Prop where
  flags_eq : SI.flags = Flags.or
    { alt := .flag '#' ∈ toks
      zeropad := .flag '0' ∈ toks
      ladjust := .flag '-' ∈ toks
      longdbl := .bigL ∈ toks }
    ((toks.filterMap Token.length?).getLast?.getD .none).flags
  width_eq : SI.width = (toks.filterMap Token.width?).getLast?.getD 0
  prec_eq : SI.prec = (toks.filterMap Token.prec?).getLast?.getD (-1)
  sign_eq : SI.sign =
    if .flag '+' ∈ toks then '+' else if .flag ' ' ∈ toks then ' ' else nul
  wFirst_iff : SI.width = dynamicWidth → SI.prec = dynamicPrecision →
    (SI.wFirst = true ↔ ∃ a b c, toks = a ++ .starWidth :: (b ++ .starPrec :: c) ∧
      .starWidth ∉ b ++ .starPrec :: c ∧ .starPrec ∉ c)
  terminal_eq : SI.terminal = t

/-! ### One token -/

/-- The longest token at the front of `c :: cs`. -/
def munch (c : Char) (cs : List Char) : Token :=
  if isFlag c then .flag c
  else if c = '*' then .starWidth
  else if c = '.' then
    if cs.head? = some '*' then .starPrec else .prec (cs.takeWhile isDigit)
  else if isDigit c then .width (c :: cs.takeWhile isDigit)
  else if c = 'L' then .bigL
  else if c = 'h' then if cs.head? = some 'h' then .length .hh else .length .h
  else if c = 'l' then if cs.head? = some 'l' then .length .ll else .length .l
  else if c = 'j' then .length .j
  else if c = 't' then .length .t
  else .length .z

lemma munch_point (cs : List Char) : munch '.' cs =
    if cs.head? = some '*' then .starPrec else .prec (cs.takeWhile isDigit) := rfl

lemma munch_h (cs : List Char) : munch 'h' cs =
    if cs.head? = some 'h' then .length .hh else .length .h := rfl

lemma munch_l (cs : List Char) : munch 'l' cs =
    if cs.head? = some 'l' then .length .ll else .length .l := rfl

/-- What the `switch` does with a token. -/
def Token.apply (f : SpecFields) : Token → SpecFields
  | flag c =>
      if c = ' ' then if f.sign = nul then { f with sign := ' ' } else f
      else if c = '#' then { f with flags := { f.flags with alt := true } }
      else if c = '-' then { f with flags := { f.flags with ladjust := true } }
      else if c = '+' then { f with sign := '+' }
      else { f with flags := { f.flags with zeropad := true } }
  | bigL => { f with flags := { f.flags with longdbl := true } }
  | length m => { f with intWidth := m.flags }
  | width digits => { f with width := numeralFrom 0 digits }
  | starWidth =>
      { f with
        width := dynamicWidth
        widthFirst := if f.prec = dynamicPrecision then false else f.widthFirst }
  | prec digits => { f with prec := numeralFrom 0 digits }
  | starPrec =>
      { f with
        prec := dynamicPrecision
        widthFirst := if f.width = dynamicWidth then true else f.widthFirst }

/-- The code reads the longest token. -/
lemma readToken_eq {c : Char} (hc : isSpecChar c = true) (cs : List Char) (f : SpecFields) :
    (readToken c cs f).1 = (munch c cs).apply f ∧
      (readToken c cs f).2 + 1 = (munch c cs).text.length := by
  induction c, hc using specChar_cases with
  | alone c _ hc =>
      fin_cases hc <;>
        simp [readToken, munch, isFlag, isDigit, Token.apply, Token.text, Length.text,
          Length.flags]
  | point =>
      by_cases hx : cs.head? = some '*' <;>
        simp [readToken, munch, isFlag, hx, Token.apply, Token.text]
  | h =>
      by_cases hx : cs.head? = some 'h' <;>
        simp [readToken, munch, isFlag, isDigit, hx, Token.apply, Token.text, Length.text,
          Length.flags]
  | l =>
      by_cases hx : cs.head? = some 'l' <;>
        simp [readToken, munch, isFlag, isDigit, hx, Token.apply, Token.text, Length.text,
          Length.flags]
  | digit c _ hdigit hzero =>
      obtain ⟨h1, h2, h3, h4, h5, h6, h7⟩ := digit_facts hdigit hzero
      simp [readToken, munch, hdigit, hzero, h1, h2, h3, h4, h5, h6, h7, Token.apply, Token.text]

lemma length_le_takeWhile {ds cs : List Char} (hfront : ds <+: cs)
    (hds : ∀ d ∈ ds, isDigit d = true) : ds.length ≤ (cs.takeWhile isDigit).length := by
  obtain ⟨rest, rfl⟩ := hfront
  rw [List.takeWhile_append_of_pos hds, List.length_append]
  exact Nat.le_add_right _ _

lemma head?_of_front {x : Char} {xs cs : List Char} (h : x :: xs <+: cs) : cs.head? = some x := by
  obtain ⟨rest, rfl⟩ := h
  rfl

lemma Token.text_ne_nil : ∀ t : Token, t.Valid → t.text ≠ [] := by
  intro t ht
  cases t with
  | length m => cases m <;> simp_all [Valid, text, Length.text]
  | width digits =>
      obtain ⟨⟨d, ds, rfl, -⟩, -⟩ := ht
      simp [text]
  | _ => simp [text]

lemma valid_munch (c : Char) (cs : List Char) : (munch c cs).Valid := by
  have hdigits : ∀ d ∈ cs.takeWhile isDigit, isDigit d = true := fun d hd =>
    List.mem_takeWhile_imp hd
  rw [munch]
  by_cases h1 : isFlag c = true
  · rw [if_pos h1]
    exact h1
  rw [if_neg h1]
  by_cases h2 : c = '*'
  · rw [if_pos h2]
    trivial
  rw [if_neg h2]
  by_cases h3 : c = '.'
  · rw [if_pos h3]
    by_cases h4 : cs.head? = some '*'
    · rw [if_pos h4]
      trivial
    · rw [if_neg h4]
      exact hdigits
  rw [if_neg h3]
  by_cases h5 : isDigit c = true
  · rw [if_pos h5]
    refine ⟨⟨c, _, rfl, ?_⟩, ?_⟩
    · rintro rfl
      exact h1 (by decide)
    · intro d hd
      rcases List.mem_cons.mp hd with rfl | hd
      · exact h5
      · exact hdigits d hd
  -- a letter
  rw [if_neg h5]
  have hlength : ∀ m : Length, m ≠ .none → (Token.length m).Valid := fun _ hm => hm
  by_cases h6 : c = 'L'
  · rw [if_pos h6]
    trivial
  · rw [if_neg h6]
    simp only [apply_ite Token.Valid, hlength, ne_eq, reduceCtorEq, not_false_iff, ite_self]

/-- Nothing longer than `munch c cs` stands at the front. -/
lemma length_text_le {c : Char} {cs : List Char} {u : Token} (hu : u.Valid)
    (h : u.text <+: c :: cs) : u.text.length ≤ (munch c cs).text.length := by
  have hpos : 1 ≤ (munch c cs).text.length :=
    List.length_pos_iff.mpr (Token.text_ne_nil _ (valid_munch c cs))
  cases u with
  | flag x => exact hpos
  | bigL => exact hpos
  | starWidth => exact hpos
  | length m =>
      cases m with
      | none => exact absurd rfl hu
      | hh =>
          obtain ⟨rfl, hcs⟩ := List.cons_prefix_cons.mp h
          rw [munch_h, if_pos (head?_of_front hcs)]
      | ll =>
          obtain ⟨rfl, hcs⟩ := List.cons_prefix_cons.mp h
          rw [munch_l, if_pos (head?_of_front hcs)]
      | _ => exact hpos
  | width digits =>
      obtain ⟨⟨d, ds, rfl, hzero⟩, hdigits⟩ := hu
      obtain ⟨rfl, hcs⟩ := List.cons_prefix_cons.mp h
      have hd := hdigits d List.mem_cons_self
      obtain ⟨h1, h2, h3, -⟩ := digit_facts hd hzero
      have hle := length_le_takeWhile hcs fun x hx => hdigits x (List.mem_cons_of_mem _ hx)
      simpa [munch, h1, h2, h3, hd, Token.text] using hle
  | prec digits =>
      obtain ⟨rfl, hcs⟩ := List.cons_prefix_cons.mp h
      by_cases hstar : cs.head? = some '*'
      · -- no digit stands before the '*'
        have hnil : digits = [] := by
          cases digits with
          | nil => rfl
          | cons d ds =>
              obtain rfl : d = '*' := Option.some.inj ((head?_of_front hcs).symm.trans hstar)
              exact absurd (hu '*' List.mem_cons_self) (by decide)
        rw [hnil]
        exact hpos
      · have hle := length_le_takeWhile hcs hu
        rw [munch_point, if_neg hstar]
        exact Nat.succ_le_succ hle
  | starPrec =>
      obtain ⟨rfl, hcs⟩ := List.cons_prefix_cons.mp h
      rw [munch_point, if_pos (head?_of_front hcs)]

lemma prefix_of_head? {x : Char} {c : Char} {cs : List Char} (h : cs.head? = some x) :
    [c, x] <+: c :: cs := by
  cases cs with
  | nil => exact absurd h (by simp)
  | cons y ys =>
      obtain rfl : y = x := Option.some.inj h
      exact ⟨ys, rfl⟩

/-- The token read is the longest one. -/
lemma first_munch {c : Char} (hc : isSpecChar c = true) (cs : List Char) :
    First Token.text Token.Valid (c :: cs) (munch c cs) := by
  refine ⟨valid_munch c cs, ?_, fun u => length_text_le⟩
  induction c, hc using specChar_cases with
  | alone c _ hc =>
      fin_cases hc <;> simp [munch, isFlag, isDigit, Token.text, Length.text]
  | point =>
      by_cases hx : cs.head? = some '*'
      · simpa [munch, isFlag, hx, Token.text] using prefix_of_head? (c := '.') hx
      · simpa [munch, isFlag, hx, Token.text] using List.takeWhile_prefix isDigit
  | h =>
      by_cases hx : cs.head? = some 'h'
      · simpa [munch, isFlag, isDigit, hx, Token.text, Length.text] using
          prefix_of_head? (c := 'h') hx
      · simp [munch, isFlag, isDigit, hx, Token.text, Length.text]
  | l =>
      by_cases hx : cs.head? = some 'l'
      · simpa [munch, isFlag, isDigit, hx, Token.text, Length.text] using
          prefix_of_head? (c := 'l') hx
      · simp [munch, isFlag, isDigit, hx, Token.text, Length.text]
  | digit c _ hdigit hzero =>
      obtain ⟨h1, h2, h3, -⟩ := digit_facts hdigit hzero
      simpa [munch, h1, h2, h3, hdigit, Token.text] using List.takeWhile_prefix isDigit

/-! ### All tokens -/

/-- A token is read back from its own text. -/
lemma exists_munch (t : Token) (ht : t.Valid) :
    ∃ c cs, t.text = c :: cs ∧ munch c cs = t := by
  have hall : ∀ ds : List Char, (∀ d ∈ ds, isDigit d = true) → ds.takeWhile isDigit = ds :=
    fun ds hds => List.takeWhile_eq_self_iff.mpr hds
  cases t with
  | flag c => exact ⟨c, [], rfl, if_pos ht⟩
  | bigL => exact ⟨'L', [], rfl, by decide⟩
  | starWidth => exact ⟨'*', [], rfl, by decide⟩
  | starPrec => exact ⟨'.', ['*'], rfl, by decide⟩
  | length m =>
      cases m with
      | none => exact absurd rfl ht
      | hh => exact ⟨'h', ['h'], rfl, by decide⟩
      | h => exact ⟨'h', [], rfl, by decide⟩
      | l => exact ⟨'l', [], rfl, by decide⟩
      | ll => exact ⟨'l', ['l'], rfl, by decide⟩
      | j => exact ⟨'j', [], rfl, by decide⟩
      | t => exact ⟨'t', [], rfl, by decide⟩
      | z => exact ⟨'z', [], rfl, by decide⟩
  | width digits =>
      obtain ⟨⟨d, ds, rfl, hzero⟩, hdigits⟩ := ht
      have hd := hdigits d List.mem_cons_self
      obtain ⟨h1, h2, h3, -⟩ := digit_facts hd hzero
      have hds := hall ds fun x hx => hdigits x (List.mem_cons_of_mem _ hx)
      exact ⟨d, ds, rfl, by simp [munch, h1, h2, h3, hd, hds]⟩
  | prec digits =>
      have hstar : digits.head? ≠ some '*' := by
        intro hhead
        exact absurd (ht '*' (List.mem_of_head? hhead)) (by decide)
      exact ⟨'.', digits, rfl, by simp [munch, isFlag, hstar, hall digits ht]⟩

/-- Tokens can be told apart by their texts. -/
lemma Token.text_injective (t u : Token) (ht : t.Valid) (hu : u.Valid)
    (h : t.text = u.text) : t = u := by
  obtain ⟨c, cs, htext, rfl⟩ := exists_munch t ht
  obtain ⟨d, ds, hutext, rfl⟩ := exists_munch u hu
  rw [htext, hutext] at h
  obtain ⟨rfl, rfl⟩ := List.cons.inj h
  rfl

/-- The loop cuts a word into tokens, the longest first, and does what they say. -/
lemma exists_lexes {w : List Char} (hw : IsWord w) :
    ∃ toks, Lexes Token.text Token.Valid w toks ∧
      ∀ f, readWord 0 w f = toks.foldl Token.apply f := by
  induction hn : w.length using Nat.strong_induction_on generalizing w with
  | _ n ih =>
    cases w with
    | nil => exact ⟨[], .nil, fun f => rfl⟩
    | cons c cs =>
        have hc := hw c List.mem_cons_self
        have hfirst := first_munch hc cs
        obtain ⟨rest, hrest⟩ := hfirst.isPrefix
        have hpos := List.length_pos_iff.mpr (Token.text_ne_nil _ hfirst.valid)
        have hlen : rest.length < n := by
          have hall := congrArg List.length hrest
          rw [List.length_append, hn] at hall
          omega
        obtain ⟨toks, hlex, hfold⟩ := ih rest.length hlen
          (hw.suffix ⟨(munch c cs).text, hrest⟩) rfl
        refine ⟨munch c cs :: toks, ?_, fun f => ?_⟩
        · rw [← hrest] at hfirst ⊢
          exact .cons hfirst hlex
        · obtain ⟨happly, hsize⟩ := readToken_eq hc cs f
          have hdrop : cs.drop (readToken c cs f).2 = rest := by
            have hcons := congrArg (List.drop ((readToken c cs f).2 + 1)) hrest
            rw [hsize, List.drop_left, ← hsize, List.drop_succ_cons] at hcons
            exact hcons.symm
          rw [readWord, readWord_skip, hdrop, hfold, List.foldl_cons, happly]

/-! ### What the tokens do -/

/-- Is the token '.*', or is it '*'? -/
def Token.star? : Token → Option Bool
  | starWidth => some false
  | starPrec => some true
  | _ => none

section Apply

variable (t : Token) (f : SpecFields)

lemma Token.apply_flags (ht : t.Valid) : (t.apply f).flags =
    { f.flags with
      alt := f.flags.alt || t = flag '#'
      zeropad := f.flags.zeropad || t = flag '0'
      ladjust := f.flags.ladjust || t = flag '-'
      longdbl := f.flags.longdbl || t = bigL } := by
  cases t with
  | flag c =>
      have hc : c = '-' ∨ c = '+' ∨ c = ' ' ∨ c = '#' ∨ c = '0' := by
        simpa [Token.Valid, isFlag, or_assoc] using ht
      rcases hc with rfl | rfl | rfl | rfl | rfl <;> simp [apply]
      split_ifs <;> rfl
  | _ => simp [apply]

lemma Token.apply_intWidth :
    (t.apply f).intWidth = (t.length?.map Length.flags).getD f.intWidth := by
  cases t with
  | flag c =>
      simp only [apply, length?]
      split_ifs <;> rfl
  | _ => rfl

lemma Token.apply_width : (t.apply f).width = t.width?.getD f.width := by
  cases t with
  | flag c =>
      simp only [apply, width?]
      split_ifs <;> rfl
  | _ => rfl

lemma Token.apply_prec : (t.apply f).prec = t.prec?.getD f.prec := by
  cases t with
  | flag c =>
      simp only [apply, prec?]
      split_ifs <;> rfl
  | _ => rfl

lemma Token.apply_sign : (t.apply f).sign =
    if t = flag '+' then '+' else if t = flag ' ' ∧ f.sign = nul then ' ' else f.sign := by
  cases t with
  | flag c =>
      by_cases h1 : c = ' '
      · by_cases h2 : f.sign = nul <;> simp [apply, h1, h2]
      · by_cases h2 : c = '+'
        · simp [apply, h2]
        · simp only [apply, h1, h2, flag.injEq, if_false, false_and]
          split_ifs <;> rfl
  | _ => simp [apply]

lemma Token.apply_widthFirst : (t.apply f).widthFirst =
    if t = starWidth ∧ f.prec = dynamicPrecision then false
    else if t = starPrec ∧ f.width = dynamicWidth then true
    else f.widthFirst := by
  cases t with
  | flag c =>
      simp only [apply, reduceCtorEq, false_and, if_false]
      split_ifs <;> rfl
  | starWidth => simp [apply]
  | starPrec => simp [apply]
  | _ => simp [apply]

end Apply

/-- The locals after the tokens, one field after the other. -/
structure Folded (toks : List Token) (f : SpecFields) : Prop where
  flags_eq : f.flags =
    { alt := .flag '#' ∈ toks
      zeropad := .flag '0' ∈ toks
      ladjust := .flag '-' ∈ toks
      longdbl := .bigL ∈ toks }
  intWidth_eq : f.intWidth = ((toks.filterMap Token.length?).getLast?.getD .none).flags
  width_eq : f.width = (toks.filterMap Token.width?).getLast?.getD 0
  prec_eq : f.prec = (toks.filterMap Token.prec?).getLast?.getD (-1)
  sign_eq : f.sign = if .flag '+' ∈ toks then '+' else if .flag ' ' ∈ toks then ' ' else nul
  widthFirst_iff : f.width = dynamicWidth → f.prec = dynamicPrecision →
    (f.widthFirst = true ↔ (toks.filterMap Token.star?).getLast? = some true)

lemma numeral_ne_dynamic {ds : List Char} (hds : ∀ d ∈ ds, isDigit d = true) :
    numeralFrom 0 ds ≠ -2 ^ 31 := by
  have hle := le_numeralFrom le_rfl hds
  omega

lemma last_concat {β : Type*} (g : Token → Option β) (toks : List Token) (t : Token) :
    ((toks ++ [t]).filterMap g).getLast? = (g t).or (toks.filterMap g).getLast? := by
  rw [List.filterMap_append, List.getLast?_append]
  cases h : g t <;> simp [h]

/-- Each token adds to what the tokens before it say. -/
lemma Folded.apply {toks : List Token} {f : SpecFields} (h : Folded toks f) {t : Token}
    (ht : t.Valid) : Folded (toks ++ [t]) (t.apply f) := by
  have hmem : ∀ u, u ∈ toks ++ [t] ↔ u ∈ toks ∨ t = u := by
    intro u
    rw [List.mem_append, List.mem_singleton, eq_comm]
  constructor
  · simp only [t.apply_flags f ht, h.flags_eq, hmem, Bool.decide_or]
  · rw [t.apply_intWidth, h.intWidth_eq, last_concat]
    cases t.length? <;> rfl
  · rw [t.apply_width, h.width_eq, last_concat]
    cases t.width? <;> rfl
  · rw [t.apply_prec, h.prec_eq, last_concat]
    cases t.prec? <;> rfl
  · simp only [t.apply_sign, h.sign_eq, hmem]
    by_cases h1 : t = .flag '+'
    · simp [h1]
    · by_cases h2 : Token.flag '+' ∈ toks
      · simp [h1, h2, show '+' ≠ nul by decide]
      · by_cases h3 : t = .flag ' ' <;> by_cases h4 : Token.flag ' ' ∈ toks <;>
          simp [h1, h2, h3, h4]
  · rw [t.apply_width, t.apply_prec, t.apply_widthFirst, last_concat]
    intro hw hp
    cases t with
    | starWidth =>
        have hprec : f.prec = dynamicPrecision := hp
        simp [Token.star?, hprec]
    | starPrec =>
        have hwidth : f.width = dynamicWidth := hw
        simp [Token.star?, hwidth]
    | width digits => exact absurd hw (numeral_ne_dynamic ht.2)
    | prec digits => exact absurd hp (numeral_ne_dynamic ht)
    | _ => simpa [Token.star?] using h.widthFirst_iff hw hp

lemma folded_foldl {toks : List Token} (hvalid : ∀ t ∈ toks, t.Valid) :
    Folded toks (toks.foldl Token.apply {}) := by
  induction toks using List.reverseRecOn with
  | nil =>
      refine ⟨rfl, rfl, rfl, rfl, rfl, fun hw => absurd hw (by decide)⟩
  | append_singleton toks t ih =>
      rw [List.foldl_append, List.foldl_cons, List.foldl_nil]
      exact (ih fun u hu => hvalid u (List.mem_append_left _ hu)).apply
        (hvalid t (List.mem_append_right _ (List.mem_singleton_self t)))

/-! ### Which star comes last -/

lemma exists_last {x : Token} {l : List Token} (h : x ∈ l) :
    ∃ a b, l = a ++ x :: b ∧ x ∉ b := by
  obtain ⟨a, b, hab, ha⟩ := List.eq_append_cons_of_mem (List.mem_reverse.mpr h)
  refine ⟨b.reverse, a.reverse, ?_, fun hx => ha (List.mem_reverse.mp hx)⟩
  have hrev := congrArg List.reverse hab
  simpa using hrev

lemma filterMap_star_nil {l : List Token} (h1 : .starWidth ∉ l) (h2 : .starPrec ∉ l) :
    l.filterMap Token.star? = [] := by
  rw [List.filterMap_eq_nil_iff]
  intro t ht
  cases t with
  | starWidth => exact absurd ht h1
  | starPrec => exact absurd ht h2
  | _ => rfl

lemma filterMap_starWidth (l : List Token) :
    (Token.starWidth :: l).filterMap Token.star? = false :: l.filterMap Token.star? := rfl

lemma filterMap_starPrec (l : List Token) :
    (Token.starPrec :: l).filterMap Token.star? = true :: l.filterMap Token.star? := rfl

lemma last_star_iff {toks : List Token} (hwidth : .starWidth ∈ toks) :
    (toks.filterMap Token.star?).getLast? = some true ↔
      ∃ a b c, toks = a ++ .starWidth :: (b ++ .starPrec :: c) ∧
        .starWidth ∉ b ++ .starPrec :: c ∧ .starPrec ∉ c := by
  constructor
  · intro hlast
    obtain ⟨a, r, rfl, hr⟩ := exists_last hwidth
    by_cases hprec : .starPrec ∈ r
    · obtain ⟨b, c, rfl, hc⟩ := exists_last hprec
      exact ⟨a, b, c, rfl, hr, hc⟩
    · rw [List.filterMap_append, filterMap_starWidth, filterMap_star_nil hr hprec,
        List.getLast?_append] at hlast
      exact absurd hlast (by simp)
  · rintro ⟨a, b, c, rfl, hw, hc⟩
    have hcw : Token.starWidth ∉ c := fun h =>
      hw (List.mem_append_right _ (List.mem_cons_of_mem _ h))
    rw [List.filterMap_append, filterMap_starWidth, List.filterMap_append, filterMap_starPrec,
      filterMap_star_nil hcw hc, ← List.cons_append, ← List.append_assoc, List.getLast?_concat]

lemma starWidth_mem {toks : List Token} (hvalid : ∀ t ∈ toks, t.Valid)
    (h : (toks.filterMap Token.width?).getLast?.getD 0 = dynamicWidth) : .starWidth ∈ toks := by
  cases hlast : (toks.filterMap Token.width?).getLast? with
  | none =>
      rw [hlast] at h
      exact absurd h (by decide)
  | some v =>
      rw [hlast] at h
      obtain ⟨t, ht, hv⟩ := List.mem_filterMap.mp (List.mem_of_getLast? hlast)
      cases t with
      | starWidth => exact ht
      | width digits =>
          obtain rfl : numeralFrom 0 digits = v := Option.some.inj hv
          exact absurd h (numeral_ne_dynamic (hvalid _ ht).2)
      | _ => exact absurd hv (by simp [Token.width?])

/-! ### The grammar -/

lemma says_foldl {toks : List Token} (hvalid : ∀ t ∈ toks, t.Valid) (t : Char) (b e : ℕ) :
    Says toks t ({ toks.foldl Token.apply {} with terminal := t : SpecFields }.specInfo b e) := by
  have h := folded_foldl hvalid
  constructor
  · simp only [SpecFields.specInfo, h.flags_eq, h.intWidth_eq]
  · exact h.width_eq
  · exact h.prec_eq
  · exact h.sign_eq
  · intro hw hp
    have hmem := starWidth_mem hvalid (h.width_eq ▸ hw)
    rw [← last_star_iff hmem]
    exact h.widthFirst_iff hw hp
  · rfl

/-- **The grammar of a specifier.** Every modifier word whose numbers fit an `int` can be cut
into longest tokens in exactly one way, and `getOneSpec` finds what they say: it does not
throw. -/
theorem getOneSpec_grammar {s : List Char} (hs : nul ∉ s) {i : ℕ} {w : List Char} {t : Char}
    (hspec : specAt (scan s) i = some (w, t)) (hfit : FitsInt w) :
    ∃ toks, Lexes Token.text Token.Valid w toks ∧
      (∀ toks', Lexes Token.text Token.Valid w toks' → toks' = toks) ∧
      ∃ SI, getOneSpec (s ++ [nul]) i = .ok SI ∧ Says toks t SI := by
  obtain ⟨hw, -⟩ := (reads_scan hs).mem_spec
    ((afterSpecs_suffix _ _).subset (firstSpec_mem hspec))
  have hi : i ≤ (scan s).countP Piece.isSpec := by
    by_contra hlt
    have hnone := firstSpec_isNone (afterSpecs (scan s) i)
    rw [← specAt, hspec, countP_afterSpecs, Nat.sub_eq_zero_of_le (by omega)] at hnone
    exact absurd hnone (by simp)
  obtain ⟨toks, hlex, hfold⟩ := exists_lexes hw
  have hone : ∀ w' t', specAt (scan s) i = some (w', t') → FitsInt w' := by
    intro w' t' hspec'
    obtain ⟨rfl, -⟩ := Prod.mk.inj (Option.some.inj (hspec.symm.trans hspec'))
    exact hfit
  refine ⟨toks, hlex, fun toks' hlex' =>
    hlex'.unique Token.text_injective Token.text_ne_nil hlex, _, getOneSpec_eq hs hone hi, ?_⟩
  have hfields : fieldsAt (scan s) i = { toks.foldl Token.apply {} with terminal := t } := by
    rw [fieldsAt, hspec, ← hfold]
    rfl
  rw [specInfoAt, hfields]
  exact says_foldl hlex.valid t _ _

/-- `%*.3.*5l*lhd`, with repeated widths, precisions and lengths. -/
theorem getOneSpec_grammar_repeated :
    ∃ toks, Lexes Token.text Token.Valid "*.3.*5l*lh".toList toks ∧
      (∀ toks', Lexes Token.text Token.Valid "*.3.*5l*lh".toList toks' → toks' = toks) ∧
      ∃ SI, getOneSpec ("%*.3.*5l*lhd".toList ++ [nul]) 0 = .ok SI ∧ Says toks 'd' SI :=
  getOneSpec_grammar (s := "%*.3.*5l*lhd".toList) (by decide) rfl (by decide)

/-! ### Integer specifiers -/

lemma width_cases {toks : List Token} (hvalid : ∀ t ∈ toks, t.Valid) {t : Char} {SI : SpecInfo}
    (h : Says toks t SI) : SI.width = dynamicWidth ∨ 0 ≤ SI.width := by
  rw [h.width_eq]
  cases hlast : (toks.filterMap Token.width?).getLast? with
  | none => exact .inr le_rfl
  | some v =>
      obtain ⟨u, hu, hv⟩ := List.mem_filterMap.mp (List.mem_of_getLast? hlast)
      cases u with
      | starWidth => exact .inl (Option.some.inj hv).symm
      | width digits =>
          obtain rfl : numeralFrom 0 digits = v := Option.some.inj hv
          exact .inr (le_numeralFrom le_rfl (hvalid _ hu).2)
      | _ => exact absurd hv (by simp [Token.width?])

lemma prec_cases {toks : List Token} (hvalid : ∀ t ∈ toks, t.Valid) {t : Char} {SI : SpecInfo}
    (h : Says toks t SI) : SI.prec = dynamicPrecision ∨ SI.prec = -1 ∨ 0 ≤ SI.prec := by
  rw [h.prec_eq]
  cases hlast : (toks.filterMap Token.prec?).getLast? with
  | none => exact .inr (.inl rfl)
  | some v =>
      obtain ⟨u, hu, hv⟩ := List.mem_filterMap.mp (List.mem_of_getLast? hlast)
      cases u with
      | starPrec => exact .inl (Option.some.inj hv).symm
      | prec digits =>
          obtain rfl : numeralFrom 0 digits = v := Option.some.inj hv
          exact .inr (.inr (le_numeralFrom le_rfl (hvalid _ hu)))
      | _ => exact absurd hv (by simp [Token.prec?])

/-- **Every integer specifier** that `getOneSpec` finds is one of those that the theorems about
integer fields speak of, whatever its dynamic width and precision are. -/
theorem exists_matches {toks : List Token} (hvalid : ∀ t ∈ toks, t.Valid) {t : Char}
    {SI : SpecInfo} (h : Says toks t SI) (ht : isIntTerminal t = true) (W P : ℤ) :
    ∃ d : IntSpec, d.Matches SI.flags.alt SI ∧
      (SI.width = dynamicWidth → d.width = .dynamic W) ∧
      (SI.prec = dynamicPrecision → d.prec = .dynamic P) := by
  have hwidth := width_cases hvalid h
  have hprec := prec_cases hvalid h
  refine ⟨{
    minus := .flag '-' ∈ toks
    plus := .flag '+' ∈ toks
    space := .flag ' ' ∈ toks
    zero := .flag '0' ∈ toks
    length := (toks.filterMap Token.length?).getLast?.getD .none
    width := if SI.width = dynamicWidth then .dynamic W else .static SI.width.toNat
    prec := if SI.prec = dynamicPrecision then .dynamic P
      else if SI.prec = -1 then .omitted else .static SI.prec.toNat
    conv := t
    isInt := ht }, ?_, fun hw => if_pos hw, fun hp => if_pos hp⟩
  refine ⟨⟨?_, ?_, ?_, ?_, ?_, h.terminal_eq⟩, rfl, ?_⟩
  · rw [h.flags_eq]
    cases (toks.filterMap Token.length?).getLast?.getD .none <;> simp [Flags.or, Length.flags]
  · rw [h.flags_eq]
    cases (toks.filterMap Token.length?).getLast?.getD .none <;> simp [Flags.or, Length.flags]
  · rw [h.sign_eq]
    simp only [decide_eq_true_eq]
  · by_cases hw : SI.width = dynamicWidth
    · simp only [hw, if_true]
    · simp only [hw, if_false]
      omega
  · by_cases hp : SI.prec = dynamicPrecision
    · simp only [hp, if_true]
    · by_cases hp' : SI.prec = -1
      · rw [if_neg hp, if_pos hp', hp']
      · simp only [hp, hp', if_false]
        omega
  · rw [h.flags_eq]
    cases (toks.filterMap Token.length?).getLast?.getD .none <;>
      simp [IntSpec.lengthFlags, Flags.or, Length.flags]

end ConstexprFmtStr
