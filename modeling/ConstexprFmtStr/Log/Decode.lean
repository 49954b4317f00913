import Mathlib.Tactic
import ConstexprFmtStr.Log.Layout

/-!
The arguments of a log entry, read back.

* `EntryAt`: slots and strings of what is dealt out, at two places of a memory. The places matter
  only through their distance, so `EntryAt.relocate`: an entry can be copied.
* `entryAt_afterDump`: `dump` makes such an entry.
* `Taken.fetch`: what `formator` reads; `formator_eq` is `formator` as one pass.
  `fetch_eq`: what is read from an entry is the argument, but for the place of its string.
-/

namespace ConstexprFmtStr

open Slice Word

/-! ### Slots and strings -/

namespace Taken

variable (t : Taken Arg)

/-- The bytes for the width and the precision. -/
def dynamicBytes : List UInt8 := t.ds.flatMap Arg.bytes

/-- The bytes of the slots at `i`, if the next string is at `j`. -/
def slotBytes (i j : ℕ) : List UInt8 :=
  t.dynamicBytes ++
    match copiedNul t.SI t.arg with
    | none => rawBytes t.SI t.arg
    | some _ => leBytes 8 (j - (i + t.dynamicBytes.length))

/-- The copy of the string, nothing for an argument that is stored as it is. -/
def stringBytes (mem : Mem) (t : Taken Arg) : List UInt8 :=
  match copiedNul t.SI t.arg with
  | none => []
  | some n => slice mem t.arg.address (t.size mem - n) ++ leBytes n 0

/-- The bytes of the string. -/
def stringSize (mem : Mem) (t : Taken Arg) : ℕ := if t.SI.terminal = 's' then t.size mem else 0

lemma length_dynamicBytes : t.dynamicBytes.length = (t.ds.map fun d => d.type.size).sum := by
  rw [dynamicBytes, List.length_flatMap]
  refine congrArg List.sum (List.map_congr_left fun d _ => ?_)
  exact d.length_bytes

lemma length_slotBytes (i j : ℕ) : (t.slotBytes i j).length = t.slotSize := by
  rw [slotBytes, List.length_append, length_dynamicBytes, slotSize]
  cases hcopied : copiedNul t.SI t.arg with
  | none => simp only [length_rawBytes]
  | some n => simp only [length_leBytes, (size_of_copied hcopied fun _ => 0).1]

lemma terminal_of_copied {n : ℕ} (h : copiedNul t.SI t.arg = some n) : t.SI.terminal = 's' := by
  by_contra hs
  simp [copiedNul, hs] at h

lemma length_stringBytes (mem : Mem) : (t.stringBytes mem).length = t.stringSize mem := by
  rw [stringBytes, stringSize]
  cases hcopied : copiedNul t.SI t.arg with
  | none =>
      split_ifs with hs
      · exact (size_of_not_copied hs hcopied mem).symm
      · rfl
  | some n =>
      have hle : n ≤ t.size mem := (size_of_copied hcopied mem).2
      rw [if_pos (t.terminal_of_copied hcopied), List.length_append, length_slice, length_leBytes]
      omega

/-- An offset does not depend on where the entry is. -/
lemma slotBytes_add (i j k : ℕ) : t.slotBytes (k + i) (k + j) = t.slotBytes i j := by
  rw [slotBytes, slotBytes]
  cases copiedNul t.SI t.arg with
  | none => rfl
  | some n =>
      have hoff : k + j - (k + i + t.dynamicBytes.length) = j - (i + t.dynamicBytes.length) := by
        omega
      simp only [hoff]

end Taken

lemma sum_strSizes (mem : Mem) (ts : List (Taken Arg)) :
    (strSizes mem ts).sum = (ts.map (Taken.stringSize mem)).sum := by
  induction ts with
  | nil => rfl
  | cons t ts ih =>
      rw [strSizes_cons, List.map_cons, List.sum_cons, ← ih, Taken.stringSize]
      split_ifs
      · rw [List.sum_cons]
      · rw [Nat.zero_add]

/-- The memory `mem'` has the slots of what is dealt out from `i` on, and the strings, as they
were in the memory `mem`, from `j` on. -/
def EntryAt (mem mem' : Mem) : ℕ → ℕ → List (Taken Arg) → Prop
  | _, _, [] => True
  | i, j, t :: ts =>
      slice mem' i t.slotSize = t.slotBytes i j ∧
        slice mem' j (t.stringSize mem) = t.stringBytes mem ∧
        EntryAt mem mem' (i + t.slotSize) (j + t.stringSize mem) ts

/-- **An entry can be copied** to another place. -/
lemma EntryAt.relocate {mem mem' mem'' : Mem} {i j k l : ℕ} {ts : List (Taken Arg)}
    (h : EntryAt mem mem' (k + i) (k + j) ts)
    (hslots : slice mem'' (l + i) (ts.map Taken.slotSize).sum =
      slice mem' (k + i) (ts.map Taken.slotSize).sum)
    (hstrings : slice mem'' (l + j) (ts.map (Taken.stringSize mem)).sum =
      slice mem' (k + j) (ts.map (Taken.stringSize mem)).sum) :
    EntryAt mem mem'' (l + i) (l + j) ts := by
  induction ts generalizing i j with
  | nil => trivial
  | cons t ts ih =>
      obtain ⟨hslot, hstring, hrest⟩ := h
      rw [List.map_cons, List.sum_cons, slice_add, slice_add mem'] at hslots hstrings
      obtain ⟨hslot', hslots⟩ := List.append_inj hslots (by simp)
      obtain ⟨hstring', hstrings⟩ := List.append_inj hstrings (by simp)
      refine ⟨?_, hstring'.trans hstring, ?_⟩
      · rw [hslot', hslot, t.slotBytes_add, t.slotBytes_add]
      · simp only [Nat.add_assoc] at hrest hslots hstrings ⊢
        exact ih hrest hslots hstrings

/-! ### `dump` -/

lemma mem_storeDynamic (ds : List Arg) (s : Storage) :
    (storeDynamic ds s).mem = writeAt s.mem s.storage (ds.flatMap Arg.bytes) := by
  induction ds generalizing s with
  | nil => exact (writeAt_nil _ _).symm
  | cons d ds ih =>
      calc (storeDynamic (d :: ds) s).mem
          = writeAt (s.putSlot d.bytes).mem (s.putSlot d.bytes).storage
              (ds.flatMap Arg.bytes) := ih (s.putSlot d.bytes)
        _ = writeAt s.mem s.storage ((d :: ds).flatMap Arg.bytes) := writeAt_append _ _ _ _

/-- Where a round of `dump` may read a string: beside the slots and strings still to come, and
unchanged since the sizes were computed. -/
def Intact (mem : Mem) (s : Storage) (slots strings : ℕ) (t : Taken Arg) : Prop :=
  ∀ i, t.arg.address ≤ i → i < t.arg.address + t.stringSize mem →
    s.mem i = mem i ∧ (i < s.storage ∨ s.storage + slots ≤ i) ∧
      (i < s.storage2 ∨ s.storage2 + strings ≤ i)

variable {mem : Mem} {arr : List ℕ} {IDX : ℕ} {s : Storage} {t : Taken Arg}

/-- **One round** stores the slots and the string, and nothing else. -/
lemma storeTaken_mem (hle : s.storage + t.slotSize ≤ s.storage2)
    (hsize : t.SI.terminal = 's' → arr.getD IDX 0 = t.size mem)
    (hintact : Intact mem s t.slotSize (t.stringSize mem) t) :
    slice (storeTaken arr (IDX, s) t).2.mem s.storage t.slotSize =
        t.slotBytes s.storage s.storage2 ∧
      slice (storeTaken arr (IDX, s) t).2.mem s.storage2 (t.stringSize mem) =
        t.stringBytes mem ∧
      ∀ i, (i < s.storage ∨ s.storage + t.slotSize ≤ i) →
        (i < s.storage2 ∨ s.storage2 + t.stringSize mem ≤ i) →
        (storeTaken arr (IDX, s) t).2.mem i = s.mem i := by
  have hcursor := storeDynamic_cursors t.ds s
  rw [← Taken.length_dynamicBytes] at hcursor
  have hmem : (storeDynamic t.ds s).mem = writeAt s.mem s.storage t.dynamicBytes :=
    mem_storeDynamic t.ds s
  have hslot := t.length_slotBytes s.storage s.storage2
  have hstring := t.length_stringBytes mem
  -- one block of slots, and one string behind all of them
  have hstore : (storeTaken arr (IDX, s) t).2.mem =
      writeAt (writeAt s.mem s.storage2 (t.stringBytes mem)) s.storage
        (t.slotBytes s.storage s.storage2) := by
    simp only [storeTaken, storeArg_eq, Taken.slotBytes, Taken.stringBytes] at hslot hstring ⊢
    cases hcopied : copiedNul t.SI t.arg with
    | none =>
        simp only
        rw [writeAt_nil, ← writeAt_append, Storage.putSlot, ← hcursor.1, ← hmem]
        rfl
    | some n =>
        have hs := t.terminal_of_copied hcopied
        have hn : n ≤ t.size mem := (size_of_copied hcopied mem).2
        have hcopy : slice (storeDynamic t.ds s).mem t.arg.address (t.size mem - n) =
            slice mem t.arg.address (t.size mem - n) := by
          refine slice_congr fun i hi hi' => ?_
          have hlt : i < t.arg.address + t.stringSize mem := by
            rw [Taken.stringSize, if_pos hs]
            omega
          obtain ⟨hsame, hout, -⟩ := hintact i hi hlt
          simp only [hcopied, List.length_append, length_leBytes] at hslot
          rw [hmem, writeAt_of_disjoint (by omega), hsame]
        rw [hmem] at hcopy
        simp only [hcopied, List.length_append, length_leBytes] at hslot
        simp only [mem_putString, hsize hs, hcopy, hcursor.1, hcursor.2, hmem, replay_cons,
          replay_nil]
        have hjoin : s.storage2 + (t.size mem - n) =
            s.storage2 + (slice mem t.arg.address (t.size mem - n)).length := by
          rw [length_slice]
        rw [hjoin, writeAt_append, writeAt_comm (a := s.storage) (.inl (by omega)), writeAt_append]
  rw [hstore]
  refine ⟨?_, ?_, ?_⟩
  · rw [← hslot]
    exact slice_writeAt_self _ _ _
  · rw [slice_writeAt_of_disjoint (.inr (by omega)), ← hstring]
    exact slice_writeAt_self _ _ _
  · intro i hi hi'
    rw [writeAt_of_disjoint (by omega), writeAt_of_disjoint (by omega)]

/-- **A whole run** makes an entry, and stores nothing else. -/
lemma entryAt_foldl {ts : List (Taken Arg)} {zs : List ℕ}
    (hle : s.storage + (ts.map Taken.slotSize).sum ≤ s.storage2)
    (harr : arr.drop IDX = strSizes mem ts ++ zs)
    (hintact : ∀ t ∈ ts, Intact mem s (ts.map Taken.slotSize).sum
      (ts.map (Taken.stringSize mem)).sum t) :
    EntryAt mem (ts.foldl (storeTaken arr) (IDX, s)).2.mem s.storage s.storage2 ts ∧
      ∀ i, (i < s.storage ∨ s.storage + (ts.map Taken.slotSize).sum ≤ i) →
        (i < s.storage2 ∨ s.storage2 + (ts.map (Taken.stringSize mem)).sum ≤ i) →
        (ts.foldl (storeTaken arr) (IDX, s)).2.mem i = s.mem i := by
  induction ts generalizing IDX s with
  | nil => exact ⟨trivial, fun _ _ _ => rfl⟩
  | cons t ts ih =>
      rw [List.map_cons, List.map_cons, List.sum_cons, List.sum_cons] at *
      obtain ⟨hsize, hrest⟩ := strSizes_of_drop s harr
      obtain ⟨h1, h2⟩ := storeTaken_cursors s hsize
      rw [← Taken.stringSize] at h2
      have hroom : s.storage + t.slotSize ≤ s.storage2 := by omega
      obtain ⟨hslot, hstring, hframe⟩ := storeTaken_mem hroom hsize fun i hi hi' => by
        obtain ⟨hsame, hslots, hstrings⟩ := hintact t List.mem_cons_self i hi hi'
        exact ⟨hsame, by omega, by omega⟩
      have hroom' : (storeTaken arr (IDX, s) t).2.storage + (ts.map Taken.slotSize).sum ≤
          (storeTaken arr (IDX, s) t).2.storage2 := by omega
      obtain ⟨hentry, hframe'⟩ := ih hroom' hrest fun u hu i hi hi' => by
        obtain ⟨hsame, hslots, hstrings⟩ := hintact u (List.mem_cons_of_mem _ hu) i hi hi'
        rw [hframe i (by omega) (by omega)]
        exact ⟨hsame, by omega, by omega⟩
      rw [h1, h2] at hentry hframe'
      refine ⟨⟨?_, ?_, hentry⟩, fun i hi hi' => ?_⟩
      · rw [← hslot]
        refine slice_congr fun i hi hi' => ?_
        exact hframe' i (by omega) (by omega)
      · rw [← hstring]
        refine slice_congr fun i hi hi' => ?_
        exact hframe' i (by omega) (by omega)
      · exact (hframe' i (by omega) (by omega)).trans (hframe i (by omega) (by omega))

/-- What `dump` stores, if the strings are not in the bytes that it stores to. -/
lemma entryAt_afterDump {ts : List (Taken Arg)} {zs : List ℕ} (harr : arr = strSizes mem ts ++ zs)
    (hintact : ∀ t ∈ ts, ∀ i, t.arg.address ≤ i → i < t.arg.address + t.stringSize mem →
      s.mem i = mem i ∧ (i < s.storage ∨
        s.storage + ((ts.map Taken.slotSize).sum + (strSizes mem ts).sum) ≤ i)) :
    EntryAt mem (afterDump arr ts s).2.mem s.storage
      (s.storage + (ts.map Taken.slotSize).sum) ts := by
  rw [sum_strSizes] at hintact
  refine (entryAt_foldl (s := { s with storage2 := s.storage + (ts.map Taken.slotSize).sum })
    le_rfl (by rw [List.drop_zero, harr]) fun t ht i hi hi' => ?_).1
  obtain ⟨hsame, hout⟩ := hintact t ht i hi hi'
  refine ⟨hsame, ?_, ?_⟩
  · show i < s.storage ∨ s.storage + (ts.map Taken.slotSize).sum ≤ i
    omega
  · show i < s.storage + (ts.map Taken.slotSize).sum ∨
      s.storage + (ts.map Taken.slotSize).sum + (ts.map (Taken.stringSize mem)).sum ≤ i
    omega

/-! ### `formator` -/

/-- The objects of the given types, one behind the other. -/
def loadAll (mem : Mem) : List CType → ℕ → List Arg
  | [], _ => []
  | T :: Ts, input => loadArg mem T input :: loadAll mem Ts (input + T.size)

lemma loadArg_eq {mem : Mem} {input : ℕ} {d : Arg} (h : slice mem input d.type.size = d.bytes) :
    loadArg mem d.type input = d := by
  cases d
  simp only [loadArg, Arg.mk.injEq, true_and]
  exact h

/-- What is stored one behind the other can be loaded. -/
lemma loadAll_eq {mem : Mem} {input : ℕ} {ds : List Arg}
    (h : slice mem input (ds.map fun d => d.type.size).sum = ds.flatMap Arg.bytes) :
    loadAll mem (ds.map Arg.type) input = ds := by
  induction ds generalizing input with
  | nil => rfl
  | cons d ds ih =>
      rw [List.map_cons, List.sum_cons, slice_add, List.flatMap_cons] at h
      obtain ⟨hhead, htail⟩ := List.append_inj h (by rw [length_slice, d.length_bytes])
      rw [List.map_cons, loadAll, loadArg_eq hhead, ih htail]

/-- The arguments that `formator` reads for a specifier, with its slots at `input`. -/
def Taken.fetch (mem : Mem) (input : ℕ) (t : Taken Arg) : Taken Arg where
  SI := t.SI
  ds := loadAll mem (t.ds.map Arg.type) input
  arg := fetchArg mem t.SI t.arg.type (input + (t.ds.map fun d => d.type.size).sum)

/-- One round of `formator`. -/
lemma formator_cons (lib : CLib) (fmt : List Char) (SI : SpecInfo) {SIs : List SpecInfo}
    (hne : SIs ≠ []) (args : List Arg) (outbuf : OutbufArg) (input : ℕ) :
    formator lib fmt (SI :: SIs) (args.map Arg.type) outbuf input =
      (takeArgs SI args).bind fun (ds, arg, rest) =>
        formator lib fmt SIs (rest.map Arg.type)
          ((Taken.fetch outbuf.mem input ⟨SI, ds, arg⟩).print lib fmt outbuf)
          (input + Taken.slotSize ⟨SI, ds, arg⟩) := by
  obtain ⟨SI', SIs, rfl⟩ := List.exists_cons_of_ne_nil hne
  simp only [formator, takeArgs, numDynamic, Taken.fetch, Taken.print, Taken.W, Taken.P,
    widthPrec, Taken.slotSize]
  by_cases hw : SI.width = dynamicWidth <;> by_cases hp : SI.prec = dynamicPrecision <;>
    by_cases hf : SI.wFirst = true <;>
    rcases args with _ | ⟨d₁, _ | ⟨d₂, _ | ⟨arg, rest⟩⟩⟩ <;>
    simp [hw, hp, hf, loadAll, Nat.add_assoc]

/-- One round of `formator`, with the place of the next slot. -/
def formatTaken (lib : CLib) (fmt : List Char) (r : OutbufArg × ℕ) (t : Taken Arg) :
    OutbufArg × ℕ :=
  ((t.fetch r.1.mem r.2).print lib fmt r.1, r.2 + t.slotSize)

lemma formator_eq (lib : CLib) (fmt : List Char) {SIs : List SpecInfo} (hne : SIs ≠ [])
    (args : List Arg) (outbuf : OutbufArg) (input : ℕ) :
    formator lib fmt SIs (args.map Arg.type) outbuf input =
      (takeAll SIs args).map fun ts =>
        (ts.foldl (formatTaken lib fmt) (outbuf, input)).1.write
          (literalText fmt (SIs.getLast hne)) := by
  induction SIs generalizing args outbuf input with
  | nil => exact absurd rfl hne
  | cons SI SIs ih =>
      by_cases htail : SIs = []
      · subst htail
        rfl
      · rw [formator_cons lib fmt SI htail, takeAll_cons SI htail, List.getLast_cons htail]
        cases takeArgs SI args with
        | none => rfl
        | some r =>
            obtain ⟨ds, arg, rest⟩ := r
            simp only [Option.bind_some, ih htail]
            cases takeAll SIs rest <;> rfl

/-! ### What is read back -/

lemma stringLength_of_not_copied {SI : SpecInfo} {arg : Arg} (h : copiedNul SI arg = none)
    (P : ℤ) (mem : Mem) : stringLength SI arg P mem = 0 := by
  rw [copiedNul] at h
  rw [stringLength]
  by_cases hs : SI.terminal ≠ 's' ∨ arg.type = .nullptr
  · rw [if_pos hs]
  · rw [if_neg hs]
    rw [not_or, not_not] at hs
    rw [if_pos hs] at h
    split_ifs at h ⊢
    · rfl
    · rfl

/-- The copy of a string is the string with its '\0', and formatting reads no more of it. -/
lemma slice_of_copied {mem : Mem} {SI : SpecInfo} {arg : Arg} {n : ℕ}
    (h : copiedNul SI arg = some n) (hfits : sizeForTerminalS mem SI arg ≤ 2 ^ 64) (P : ℤ) :
    slice mem arg.address (sizeForTerminalS mem SI arg) =
        slice mem arg.address (sizeForTerminalS mem SI arg - n) ++ leBytes n 0 ∧
      stringLength SI arg P mem ≤ sizeForTerminalS mem SI arg := by
  rw [copiedNul] at h
  split_ifs at h with hs hl hw hc
  · obtain rfl := Option.some.inj h
    have hsize : sizeForTerminalS mem SI arg = (wcslen mem arg.address + 1) * sizeofWchar := by
      rw [sizeForTerminalS, if_neg hs.2, if_pos hl, if_pos hw]
    rw [hsize] at hfits ⊢
    have hlt : wcslen mem arg.address < 2 ^ 64 := by
      rw [sizeofWchar] at hfits
      omega
    have hlast : slice mem (arg.address + sizeofWchar * wcslen mem arg.address) sizeofWchar =
        leBytes sizeofWchar 0 := by
      have hzero : wcharAt mem (arg.address + sizeofWchar * wcslen mem arg.address) = 0 :=
        wcharAt_wnulIndex hlt
      have hbytes := leBytes_leValue
        (slice mem (arg.address + sizeofWchar * wcslen mem arg.address) sizeofWchar)
      rw [length_slice, ← wcharAt, hzero] at hbytes
      exact hbytes.symm
    constructor
    · rw [Nat.succ_mul, Nat.add_sub_cancel, slice_add, Nat.mul_comm, hlast]
    · rw [stringLength, if_neg (by simp [hs]), if_pos hl, if_pos hw, Nat.mul_comm]
      exact Nat.mul_le_mul_right _ (min_le_right _ _)
  · obtain rfl := Option.some.inj h
    have hsize : sizeForTerminalS mem SI arg = strlen mem arg.address + 1 := by
      rw [sizeForTerminalS, if_neg hs.2, if_neg hl, if_pos hc]
    rw [hsize] at hfits ⊢
    have hlt : strlen mem arg.address < 2 ^ 64 := hfits
    have hlast : mem (arg.address + strlen mem arg.address) = 0 := mem_nulIndex hlt
    constructor
    · rw [Nat.add_sub_cancel, slice_add, slice_succ, hlast]
      rfl
    · rw [stringLength, if_neg (by simp [hs]), if_neg hl, if_pos hc, nulIndex_eq_min hlt]
      exact (min_le_right _ _).trans (Nat.succ_le_succ (min_le_right _ _))

lemma copiedNul_pos {SI : SpecInfo} {arg : Arg} {n : ℕ} (h : copiedNul SI arg = some n) :
    0 < n := by
  rw [copiedNul] at h
  split_ifs at h
  · rw [← Option.some.inj h]
    decide
  · rw [← Option.some.inj h]
    decide

/-- The pointer to a string that is copied is an offset in the entry. -/
lemma isOffset_of_copied {SI : SpecInfo} {arg : Arg} {n : ℕ} (h : copiedNul SI arg = some n) :
    isOffset SI arg.type = true ∧ arg.type ≠ .nullptr := by
  rw [copiedNul] at h
  split_ifs at h with hs hl hw hc
  · exact ⟨by simp [isOffset, hs, hw], hs.2⟩
  · exact ⟨by simp [isOffset, hs, hc], hs.2⟩

lemma type_fetchArg (mem : Mem) (SI : SpecInfo) (T : CType) (input : ℕ) :
    (fetchArg mem SI T input).type = T := by
  rw [fetchArg]
  split_ifs <;> rfl

/-- An argument that is stored as it is. -/
lemma sameText_of_not_copied {mem mem' : Mem} {SI : SpecInfo} {arg : Arg} {input : ℕ} {P : ℤ}
    (h : copiedNul SI arg = none)
    (hslot : slice mem' input arg.type.size = rawBytes SI arg) :
    SameText SI P arg mem (fetchArg mem' SI arg.type input) mem' := by
  refine ⟨type_fetchArg _ _ _ _, fun hs => ?_, ?_⟩
  · have hoff : ¬isOffset SI arg.type = true := by simp [isOffset, hs]
    have hraw : rawBytes SI arg = arg.bytes := if_neg fun hnull => hs hnull.1
    rw [fetchArg, dif_neg hoff, ← hraw]
    exact hslot
  · rw [stringLength_of_not_copied h]
    rfl

/-- The offset leads from the slot to the string. -/
lemma address_fetchArg {mem' : Mem} {SI : SpecInfo} {arg : Arg} {n i j : ℕ}
    (h : copiedNul SI arg = some n) (hslot : slice mem' i arg.type.size = leBytes 8 (j - i))
    (hle : i ≤ j) (hlt : j < 2 ^ 64) : (fetchArg mem' SI arg.type i).address = j := by
  obtain ⟨hoff, hnull⟩ := isOffset_of_copied h
  have hbytes : (fetchArg mem' SI arg.type i).bytes =
      leBytes 8 (u64Add i (leValue (slice mem' i arg.type.size))) := by
    rw [fetchArg, dif_pos hoff]
  have hsub : j - i < 256 ^ 8 := lt_of_le_of_lt (Nat.sub_le j i) hlt
  have hadd : u64Add i (j - i) = j := by
    rw [u64Add_of_lt (by omega), Nat.add_sub_cancel' hle]
  calc (fetchArg mem' SI arg.type i).address
      = leValue (fetchArg mem' SI arg.type i).bytes := by
        rw [Arg.address, type_fetchArg, if_neg hnull]
    _ = leValue (leBytes 8 (u64Add i (j - i))) := by rw [hbytes, hslot, leValue_leBytes hsub]
    _ = j := by rw [hadd, leValue_leBytes hlt]

/-- A string that is copied. -/
lemma sameText_of_copied {mem mem' : Mem} {SI : SpecInfo} {arg : Arg} {n i j : ℕ} {P : ℤ}
    (h : copiedNul SI arg = some n) (hfits : sizeForTerminalS mem SI arg ≤ 2 ^ 64)
    (haddr : (fetchArg mem' SI arg.type i).address = j)
    (hstring : slice mem' j (sizeForTerminalS mem SI arg) =
      slice mem arg.address (sizeForTerminalS mem SI arg - n) ++ leBytes n 0) :
    SameText SI P arg mem (fetchArg mem' SI arg.type i) mem' := by
  obtain ⟨hsame, hle⟩ := slice_of_copied h hfits P
  have hs : SI.terminal = 's' := Taken.terminal_of_copied ⟨SI, [], arg⟩ h
  refine ⟨type_fetchArg _ _ _ _, fun hne => absurd hs hne, ?_⟩
  rw [haddr, ← take_slice mem' j hle, hstring, ← hsame, take_slice mem _ hle]

/-- **What is read from an entry** is the argument, but for the place of its string. -/
lemma fetch_eq {mem mem' : Mem} {t : Taken Arg} {i j : ℕ}
    (hslot : slice mem' i t.slotSize = t.slotBytes i j)
    (hstring : slice mem' j (t.stringSize mem) = t.stringBytes mem)
    (hle : i + t.slotSize ≤ j) (hfits : j + t.stringSize mem ≤ 2 ^ 64) :
    (t.fetch mem' i).ds = t.ds ∧
      SameText t.SI t.prec t.arg mem (t.fetch mem' i).arg mem' ∧
      ∀ k, (t.fetch mem' i).StringAt mem' k → j ≤ k ∧ k < j + t.stringSize mem := by
  have hsize : t.slotSize = t.dynamicBytes.length + t.arg.type.size := by
    rw [Taken.length_dynamicBytes, Taken.slotSize]
  rw [hsize, slice_add, Taken.slotBytes] at hslot
  obtain ⟨hds, harg⟩ := List.append_inj hslot (length_slice _ _ _)
  have hinput : (t.fetch mem' i).arg =
      fetchArg mem' t.SI t.arg.type (i + t.dynamicBytes.length) := by
    rw [Taken.length_dynamicBytes]
    rfl
  have hds' : (t.fetch mem' i).ds = t.ds := by
    rw [Taken.length_dynamicBytes] at hds
    exact loadAll_eq hds
  have hprec : (t.fetch mem' i).prec = t.prec := by
    rw [Taken.prec, Taken.prec, Taken.W, Taken.P, hds']
    rfl
  rw [hinput]
  cases hcopied : copiedNul t.SI t.arg with
  | none =>
      simp only [hcopied] at harg
      have hsame : SameText t.SI t.prec t.arg mem _ mem' := sameText_of_not_copied hcopied harg
      refine ⟨hds', hsame, fun k hk => ?_⟩
      have hlen := hsame.stringLength_eq
      rw [stringLength_of_not_copied hcopied] at hlen
      have hSI : (t.fetch mem' i).SI = t.SI := rfl
      rw [Taken.StringAt, hprec, hinput, hSI, hlen] at hk
      omega
  | some n =>
      have hs := t.terminal_of_copied hcopied
      have hsize' : t.stringSize mem = sizeForTerminalS mem t.SI t.arg := if_pos hs
      have hpos := copiedNul_pos hcopied
      have hle' : n ≤ sizeForTerminalS mem t.SI t.arg := (size_of_copied hcopied mem).2
      simp only [hcopied] at harg
      simp only [Taken.stringBytes, hcopied, Taken.size] at hstring
      rw [hsize'] at hstring hfits ⊢
      have hslot8 := (size_of_copied hcopied mem).1
      have haddr := address_fetchArg hcopied harg (by omega) (by omega)
      have hfits' : sizeForTerminalS mem t.SI t.arg ≤ 2 ^ 64 := by omega
      have hsame := sameText_of_copied (P := t.prec) hcopied hfits' haddr hstring
      refine ⟨hds', hsame, fun k hk => ?_⟩
      have hlen := hsame.stringLength_eq
      have hread := (slice_of_copied hcopied hfits' t.prec).2
      have hSI : (t.fetch mem' i).SI = t.SI := rfl
      rw [Taken.StringAt, hprec, hinput, hSI, haddr, hlen] at hk
      omega

end ConstexprFmtStr
