import Mathlib.Tactic
import ConstexprFmtStr.Format.Integers
import ConstexprFmtStr.Log.Entry
import ConstexprFmtStr.Runtime.SinkParse

/-!
The layout of a log entry.

* `getStrSizeArray_eq`, `storeArgs_eq`: the walks over specifiers and arguments as passes over
  what is dealt out.
* `storeArg_eq`: the stores that one argument makes. `LaidOut`: slots and strings each follow one
  another; `laidOut_foldl` says so of every run.
* `tzLog_entry`: every call of `TZ_LOG` publishes one entry of the size that it reserves, with all
  its stores in it.
-/

namespace ConstexprFmtStr

open Slice Word

/-! ### The walks -/

lemma getStrSizeArray_cons (mem : Mem) (IDX : ℕ) (SI : SpecInfo) {SIs : List SpecInfo}
    (hne : SIs ≠ []) (args : List Arg) (arr : List ℕ) :
    getStrSizeArray mem IDX (SI :: SIs) args arr =
      (takeArgs SI args).bind fun (_, arg, rest) =>
        if SI.terminal = 's' then
          getStrSizeArray mem (IDX + 1) SIs rest (arr.set IDX (sizeForTerminalS mem SI arg))
        else getStrSizeArray mem IDX SIs rest arr := by
  obtain ⟨SI', SIs, rfl⟩ := List.exists_cons_of_ne_nil hne
  simp only [getStrSizeArray, takeArgs, numDynamic]
  by_cases hw : SI.width = dynamicWidth <;> by_cases hp : SI.prec = dynamicPrecision <;>
    rcases args with _ | ⟨d₁, _ | ⟨d₂, _ | ⟨arg, rest⟩⟩⟩ <;> simp [hw, hp]

/-- The arguments for width and precision, stored. -/
def storeDynamic (ds : List Arg) (s : Storage) : Storage :=
  ds.foldl (fun s d => s.putSlot d.bytes) s

lemma storeArgs_cons (arr : List ℕ) (IDX : ℕ) (SI : SpecInfo) {SIs : List SpecInfo}
    (hne : SIs ≠ []) (args : List Arg) (s : Storage) :
    storeArgs arr IDX (SI :: SIs) args s =
      (takeArgs SI args).bind fun (ds, arg, rest) =>
        storeArgs arr (if SI.terminal = 's' then IDX + 1 else IDX) SIs rest
          (storeArg IDX SI arr arg (storeDynamic ds s)) := by
  obtain ⟨SI', SIs, rfl⟩ := List.exists_cons_of_ne_nil hne
  simp only [storeArgs, takeArgs, numDynamic]
  by_cases hw : SI.width = dynamicWidth <;> by_cases hp : SI.prec = dynamicPrecision <;>
    rcases args with _ | ⟨d₁, _ | ⟨d₂, _ | ⟨arg, rest⟩⟩⟩ <;> simp [hw, hp, storeDynamic]

/-- The string of what is dealt out is measured. -/
def Taken.size (mem : Mem) (t : Taken Arg) : ℕ := sizeForTerminalS mem t.SI t.arg

/-- The sizes of the strings, one for each `s`. -/
def strSizes (mem : Mem) (ts : List (Taken Arg)) : List ℕ :=
  (ts.filter (·.SI.terminal = 's')).map (Taken.size mem)

lemma strSizes_cons (mem : Mem) (t : Taken Arg) (ts : List (Taken Arg)) :
    strSizes mem (t :: ts) =
      if t.SI.terminal = 's' then t.size mem :: strSizes mem ts else strSizes mem ts := by
  rw [strSizes, List.filter_cons]
  by_cases hs : t.SI.terminal = 's' <;> simp [hs, strSizes]

/-- The array holds the sizes, and zeros behind them. -/
lemma getStrSizeArray_eq (mem : Mem) {SIs : List SpecInfo} (hne : SIs ≠ []) (args : List Arg)
    (pre : List ℕ) {n : ℕ} (hn : getStrsNum SIs ≤ n) :
    getStrSizeArray mem pre.length SIs args (pre ++ List.replicate n 0) =
      (takeAll SIs args).map fun ts =>
        pre ++ strSizes mem ts ++ List.replicate (n - (strSizes mem ts).length) 0 := by
  induction SIs generalizing args pre n with
  | nil => exact absurd rfl hne
  | cons SI SIs ih =>
      by_cases htail : SIs = []
      · subst htail
        simp [getStrSizeArray, takeAll, strSizes]
      · rw [getStrSizeArray_cons mem _ SI htail, takeAll_cons SI htail]
        cases takeArgs SI args with
        | none => rfl
        | some r =>
            obtain ⟨ds, arg, rest⟩ := r
            simp only [Option.bind_some, Option.map_map]
            by_cases hs : SI.terminal = 's'
            · obtain ⟨n, rfl⟩ : ∃ k, n = k + 1 := by
                simp only [getStrsNum, List.countP_cons, hs, decide_true, if_true] at hn
                exact ⟨n - 1, by omega⟩
              have hset : (pre ++ List.replicate (n + 1) 0).set pre.length
                  (sizeForTerminalS mem SI arg) =
                  (pre ++ [sizeForTerminalS mem SI arg]) ++ List.replicate n 0 := by
                simp [List.replicate_succ]
              have hlen : (pre ++ [sizeForTerminalS mem SI arg]).length = pre.length + 1 := by
                simp
              rw [if_pos hs, hset, ← hlen, ih htail]
              · congr 1
                funext ts
                simp [strSizes_cons, hs, Taken.size]
              · simp only [getStrsNum, List.countP_cons, hs, decide_true, if_true] at hn ⊢
                omega
            · rw [if_neg hs, ih htail]
              · congr 1
                funext ts
                simp [strSizes_cons, hs]
              · simp only [getStrsNum, List.countP_cons, hs, decide_false] at hn ⊢
                simpa using hn

/-- One round of `storeArgs`, with the index of the next string. -/
def storeTaken (arr : List ℕ) (r : ℕ × Storage) (t : Taken Arg) : ℕ × Storage :=
  (if t.SI.terminal = 's' then r.1 + 1 else r.1,
    storeArg r.1 t.SI arr t.arg (storeDynamic t.ds r.2))

lemma storeArgs_eq (arr : List ℕ) (IDX : ℕ) {SIs : List SpecInfo} (hne : SIs ≠ [])
    (args : List Arg) (s : Storage) :
    storeArgs arr IDX SIs args s =
      (takeAll SIs args).map fun ts => (ts.foldl (storeTaken arr) (IDX, s)).2 := by
  induction SIs generalizing IDX args s with
  | nil => exact absurd rfl hne
  | cons SI SIs ih =>
      by_cases htail : SIs = []
      · subst htail
        rfl
      · rw [storeArgs_cons arr IDX SI htail, takeAll_cons SI htail]
        cases takeArgs SI args with
        | none => rfl
        | some r =>
            obtain ⟨ds, arg, rest⟩ := r
            simp only [Option.bind_some, ih _ htail]
            cases takeAll SIs rest <;> rfl

/-! ### The stores, by what they are for -/

namespace Storage

/-- The stores of some of the parts. -/
def tagged (p : Part → Bool) (s : Storage) : List (Store UInt8) :=
  (s.stores.filter fun x => p x.1).map Prod.snd

/-- Is this a store of a string? -/
def isString : Part → Bool
  | .string _ => true
  | _ => false

/-- The stores of the arguments. -/
def slots (s : Storage) : List (Store UInt8) := s.tagged (· == .slot)

/-- The stores of the strings. -/
def strings (s : Storage) : List (Store UInt8) := s.tagged isString

/-- The stores of the string with the index `k`. -/
def string (s : Storage) (k : ℕ) : List (Store UInt8) := s.tagged (· == .string k)

/-- All stores. -/
def all (s : Storage) : List (Store UInt8) := s.stores.map Prod.snd

variable (s : Storage) (q : Part → Bool) (p : Part) (a : ℕ) (bs : List UInt8)

@[simp] lemma tagged_put :
    (s.put p a bs).tagged q = s.tagged q ++ if q p then [⟨a, bs⟩] else [] := by
  by_cases hq : q p = true <;> simp [tagged, put, hq]

@[simp] lemma all_put : (s.put p a bs).all = s.all ++ [⟨a, bs⟩] := by simp [all, put]

@[simp] lemma storage_put : (s.put p a bs).storage = s.storage := rfl

lemma mem_put : (s.put p a bs).mem = writeAt s.mem a bs := rfl

lemma tagged_putSlot :
    (s.putSlot bs).tagged q = s.tagged q ++ if q .slot then [⟨s.storage, bs⟩] else [] :=
  tagged_put s q .slot s.storage bs

lemma all_putSlot : (s.putSlot bs).all = s.all ++ [⟨s.storage, bs⟩] :=
  all_put s .slot s.storage bs

@[simp] lemma storage_putSlot : (s.putSlot bs).storage = s.storage + bs.length := rfl

@[simp] lemma storage2_putSlot : (s.putSlot bs).storage2 = s.storage2 := rfl

end Storage

/-- The size of the '\0' of a string that is copied, `none` for an argument that is stored as it
is. -/
def copiedNul (SI : SpecInfo) (arg : Arg) : Option ℕ :=
  if SI.terminal = 's' ∧ arg.type ≠ .nullptr then
    if SI.flags.longint then if arg.type.toWcharPtr then some sizeofWchar else none
    else if arg.type.toCharPtr then some 1 else none
  else none

/-- The bytes of an argument that is stored as it is. -/
def rawBytes (SI : SpecInfo) (arg : Arg) : List UInt8 :=
  if SI.terminal = 's' ∧ arg.type = .nullptr then leBytes 8 0 else arg.bytes

lemma length_rawBytes (SI : SpecInfo) (arg : Arg) :
    (rawBytes SI arg).length = arg.type.size := by
  rw [rawBytes]
  split_ifs with h
  · rw [h.2]
    rfl
  · exact arg.length_bytes

/-- An argument is stored as it is, or its string is copied. -/
lemma storeArg_eq (IDX : ℕ) (SI : SpecInfo) (arr : List ℕ) (arg : Arg) (s : Storage) :
    storeArg IDX SI arr arg s =
      match copiedNul SI arg with
      | none => s.putSlot (rawBytes SI arg)
      | some n => s.putString IDX arr n arg.address := by
  rw [storeArg]
  by_cases hs : SI.terminal = 's'
  · by_cases hnull : arg.type = .nullptr
    · simp [hs, hnull, copiedNul, rawBytes]
    · by_cases hl : SI.flags.longint = true
      · by_cases hw : arg.type.toWcharPtr = true <;> simp [hs, hnull, hl, hw, copiedNul, rawBytes]
      · by_cases hc : arg.type.toCharPtr = true <;> simp [hs, hnull, hl, hc, copiedNul, rawBytes]
  · simp [hs, copiedNul, rawBytes]

/-- A pointer fills its slot, and its string has room for the '\0'. -/
lemma size_of_copied {SI : SpecInfo} {arg : Arg} {n : ℕ} (h : copiedNul SI arg = some n)
    (mem : Mem) : arg.type.size = 8 ∧ n ≤ sizeForTerminalS mem SI arg := by
  rw [copiedNul] at h
  split_ifs at h with hs hl hw hc
  · obtain rfl := Option.some.inj h
    constructor
    · revert hw
      cases arg.type <;> simp [CType.toWcharPtr, CType.size]
    · rw [sizeForTerminalS, if_neg hs.2, if_pos hl, if_pos hw]
      exact Nat.le_mul_of_pos_left _ (Nat.succ_pos _)
  · obtain rfl := Option.some.inj h
    constructor
    · revert hc
      cases arg.type <;> simp [CType.toCharPtr, CType.size]
    · rw [sizeForTerminalS, if_neg hs.2, if_neg hl, if_pos hc]
      exact Nat.succ_pos _

lemma size_of_not_copied {SI : SpecInfo} {arg : Arg} (hs : SI.terminal = 's')
    (h : copiedNul SI arg = none) (mem : Mem) : sizeForTerminalS mem SI arg = 0 := by
  rw [copiedNul] at h
  rw [sizeForTerminalS]
  by_cases hnull : arg.type = .nullptr
  · rw [if_pos hnull]
  rw [if_pos ⟨hs, hnull⟩] at h
  rw [if_neg hnull]
  split_ifs at h ⊢
  · rfl
  · rfl

/-! ### Slots and strings -/

/-- The slots follow one another from `a` to the one cursor, the strings from `b` to the other,
each string of an index below `IDX` has the size in the array, and there are no stores of the
`OneLogEntry` but `hs`. -/
structure LaidOut (mem : Mem) (hs : List (Store UInt8)) (arr : List ℕ) (a b IDX : ℕ)
    (s : Storage) : Prop where
  slots : Tiles a s.slots s.storage
  strings : Tiles b s.strings s.storage2
  string_lt : ∀ k < IDX, ∃ x, Tiles x (s.string k) (x + arr.getD k 0)
  string_ge : ∀ k, IDX ≤ k → s.string k = []
  header_eq : s.tagged (· == .header) = hs
  mem_eq : s.mem = replay mem s.all

variable {mem : Mem} {hs : List (Store UInt8)} {arr : List ℕ} {a b IDX : ℕ} {s : Storage}

lemma LaidOut.putSlot (h : LaidOut mem hs arr a b IDX s) (bs : List UInt8) :
    LaidOut mem hs arr a b IDX (s.putSlot bs) := by
  have hstring : ∀ k, (s.putSlot bs).string k = s.string k := by
    intro k
    rw [Storage.string, Storage.tagged_putSlot, if_neg (by simp), List.append_nil]
    rfl
  constructor
  · rw [Storage.slots, Storage.tagged_putSlot, if_pos (by simp)]
    exact h.slots.append ⟨rfl, rfl⟩
  · rw [Storage.strings, Storage.tagged_putSlot, if_neg (by simp [Storage.isString]),
      List.append_nil]
    exact h.strings
  · intro k hk
    rw [hstring]
    exact h.string_lt k hk
  · intro k hk
    rw [hstring]
    exact h.string_ge k hk
  · rw [Storage.tagged_putSlot, if_neg (by simp), List.append_nil]
    exact h.header_eq
  · rw [Storage.all_putSlot, replay_append, ← h.mem_eq]
    rfl

lemma LaidOut.storeDynamic (h : LaidOut mem hs arr a b IDX s) (ds : List Arg) :
    LaidOut mem hs arr a b IDX (storeDynamic ds s) := by
  induction ds generalizing s with
  | nil => exact h
  | cons d ds ih => exact ih (h.putSlot d.bytes)

lemma tagged_putString (s : Storage) (q : Part → Bool) (IDX : ℕ) (arr : List ℕ) (n x : ℕ) :
    (s.putString IDX arr n x).tagged q = s.tagged q ++
      ((if q (.string IDX) then
          [⟨s.storage2, slice s.mem x (arr.getD IDX 0 - n)⟩,
            ⟨s.storage2 + (arr.getD IDX 0 - n), leBytes n 0⟩] else []) ++
        if q .slot then [⟨s.storage, leBytes 8 (s.storage2 - s.storage)⟩] else []) := by
  have hput : (s.putString IDX arr n x).tagged q =
      (((s.put (.string IDX) s.storage2 (slice s.mem x (arr.getD IDX 0 - n))).put (.string IDX)
        (s.storage2 + (arr.getD IDX 0 - n)) (leBytes n 0)).putSlot
          (leBytes 8 (s.storage2 - s.storage))).tagged q := rfl
  rw [hput, Storage.tagged_putSlot, Storage.tagged_put, Storage.tagged_put]
  by_cases hq : q (.string IDX) = true <;> simp [hq]

lemma all_putString (s : Storage) (IDX : ℕ) (arr : List ℕ) (n x : ℕ) :
    (s.putString IDX arr n x).all = s.all ++
      [⟨s.storage2, slice s.mem x (arr.getD IDX 0 - n)⟩,
        ⟨s.storage2 + (arr.getD IDX 0 - n), leBytes n 0⟩,
        ⟨s.storage, leBytes 8 (s.storage2 - s.storage)⟩] := by
  have hput : (s.putString IDX arr n x).all =
      (((s.put (.string IDX) s.storage2 (slice s.mem x (arr.getD IDX 0 - n))).put (.string IDX)
        (s.storage2 + (arr.getD IDX 0 - n)) (leBytes n 0)).putSlot
          (leBytes 8 (s.storage2 - s.storage))).all := rfl
  rw [hput, Storage.all_putSlot, Storage.all_put, Storage.all_put, List.append_assoc,
    List.append_assoc]
  rfl

lemma mem_putString (s : Storage) (IDX : ℕ) (arr : List ℕ) (n x : ℕ) :
    (s.putString IDX arr n x).mem = replay s.mem
      [⟨s.storage2, slice s.mem x (arr.getD IDX 0 - n)⟩,
        ⟨s.storage2 + (arr.getD IDX 0 - n), leBytes n 0⟩,
        ⟨s.storage, leBytes 8 (s.storage2 - s.storage)⟩] := rfl

lemma LaidOut.putString (h : LaidOut mem hs arr a b IDX s) {n : ℕ} (hn : n ≤ arr.getD IDX 0)
    (x : ℕ) : LaidOut mem hs arr a b (IDX + 1) (s.putString IDX arr n x) := by
  have htiles : Tiles s.storage2
      [⟨s.storage2, slice s.mem x (arr.getD IDX 0 - n)⟩,
        ⟨s.storage2 + (arr.getD IDX 0 - n), leBytes n 0⟩]
      (s.storage2 + arr.getD IDX 0) := by
    refine ⟨rfl, ?_, ?_⟩
    · simp [Store.stop]
    · simp only [Tiles, Store.stop, length_leBytes]
      omega
  constructor
  · rw [Storage.slots, tagged_putString, if_neg (by simp), if_pos (by simp)]
    have hslot : Tiles s.storage [⟨s.storage, leBytes 8 (s.storage2 - s.storage)⟩]
        (s.putString IDX arr n x).storage := ⟨rfl, rfl⟩
    exact h.slots.append hslot
  · rw [Storage.strings, tagged_putString, if_pos (by simp [Storage.isString]),
      if_neg (by simp [Storage.isString]), List.append_nil]
    exact h.strings.append htiles
  · intro k hk
    rw [Storage.string, tagged_putString, if_neg (by simp : ¬(Part.slot == .string k) = true),
      List.append_nil]
    rcases Nat.lt_succ_iff_lt_or_eq.mp hk with hlt | rfl
    · rw [if_neg (by simp; omega), List.append_nil]
      exact h.string_lt k hlt
    · rw [if_pos (by simp), show s.tagged (· == .string k) = [] from h.string_ge k le_rfl]
      exact ⟨s.storage2, htiles⟩
  · intro k hk
    rw [Storage.string, tagged_putString, if_neg (by simp; omega), if_neg (by simp)]
    rw [show s.tagged (· == .string k) = [] from h.string_ge k (by omega)]
    rfl
  · rw [tagged_putString, if_neg (by simp), if_neg (by simp), List.append_nil, List.append_nil]
    exact h.header_eq
  · rw [all_putString, replay_append, ← h.mem_eq, mem_putString]

/-- A string that is not copied takes no bytes. -/
lemma LaidOut.skip (h : LaidOut mem hs arr a b IDX s) (hzero : arr.getD IDX 0 = 0) :
    LaidOut mem hs arr a b (IDX + 1) s := by
  refine ⟨h.slots, h.strings, fun k hk => ?_, fun k hk => h.string_ge k (by omega), h.header_eq,
    h.mem_eq⟩
  rcases Nat.lt_succ_iff_lt_or_eq.mp hk with hlt | rfl
  · exact h.string_lt k hlt
  · rw [h.string_ge k le_rfl, hzero]
    exact ⟨0, rfl⟩

/-- The bytes of the slots of what is dealt out. -/
def Taken.slotSize (t : Taken Arg) : ℕ := (t.ds.map fun d => d.type.size).sum + t.arg.type.size

lemma storeDynamic_cursors (ds : List Arg) (s : Storage) :
    (storeDynamic ds s).storage = s.storage + (ds.map fun d => d.type.size).sum ∧
      (storeDynamic ds s).storage2 = s.storage2 := by
  induction ds generalizing s with
  | nil => exact ⟨rfl, rfl⟩
  | cons d ds ih =>
      obtain ⟨h1, h2⟩ := ih (s.putSlot d.bytes)
      rw [Storage.storage_putSlot, d.length_bytes] at h1
      rw [List.map_cons, List.sum_cons, ← Nat.add_assoc]
      exact ⟨h1, h2⟩

/-- The two cursors after one round. -/
lemma storeTaken_cursors {mem : Mem} {arr : List ℕ} {IDX : ℕ} {t : Taken Arg} (s : Storage)
    (hsize : t.SI.terminal = 's' → arr.getD IDX 0 = t.size mem) :
    (storeTaken arr (IDX, s) t).2.storage = s.storage + t.slotSize ∧
      (storeTaken arr (IDX, s) t).2.storage2 =
        s.storage2 + if t.SI.terminal = 's' then t.size mem else 0 := by
  obtain ⟨h1, h2⟩ := storeDynamic_cursors t.ds s
  simp only [storeTaken, storeArg_eq, Taken.slotSize]
  cases hcopied : copiedNul t.SI t.arg with
  | none =>
      simp only [Storage.storage_putSlot, Storage.storage2_putSlot, length_rawBytes, h1, h2]
      refine ⟨by omega, ?_⟩
      split_ifs with hs
      · rw [Taken.size, size_of_not_copied hs hcopied]
        rfl
      · rfl
  | some n =>
      have hs : t.SI.terminal = 's' := by
        by_contra hs
        simp [copiedNul, hs] at hcopied
      have hslot := (size_of_copied hcopied mem).1
      have hput1 : ((storeDynamic t.ds s).putString IDX arr n t.arg.address).storage =
          (storeDynamic t.ds s).storage + 8 := rfl
      have hput2 : ((storeDynamic t.ds s).putString IDX arr n t.arg.address).storage2 =
          (storeDynamic t.ds s).storage2 + arr.getD IDX 0 := rfl
      simp only [hput1, hput2, h1, h2, hslot, if_pos hs, hsize hs]
      exact ⟨by omega, trivial⟩

/-- **One round** keeps slots and strings in their places. -/
lemma LaidOut.storeTaken (h : LaidOut mem hs arr a b IDX s) {t : Taken Arg} {mem₀ : Mem}
    (hsize : t.SI.terminal = 's' → arr.getD IDX 0 = t.size mem₀) :
    LaidOut mem hs arr a b (storeTaken arr (IDX, s) t).1 (storeTaken arr (IDX, s) t).2 := by
  have hds := h.storeDynamic t.ds
  simp only [ConstexprFmtStr.storeTaken, storeArg_eq]
  cases hcopied : copiedNul t.SI t.arg with
  | none =>
      simp only
      split_ifs with hs
      · refine (hds.putSlot _).skip ?_
        rw [hsize hs, Taken.size, size_of_not_copied hs hcopied]
      · exact hds.putSlot _
  | some n =>
      have hs : t.SI.terminal = 's' := by
        by_contra hs
        simp [copiedNul, hs] at hcopied
      simp only [if_pos hs]
      refine hds.putString ?_ _
      rw [hsize hs]
      exact (size_of_copied hcopied mem₀).2

/-- The next string has the next size in the array. -/
lemma strSizes_of_drop {t : Taken Arg} {ts : List (Taken Arg)} {mem₀ : Mem} {zs : List ℕ}
    (s : Storage) (harr : arr.drop IDX = strSizes mem₀ (t :: ts) ++ zs) :
    (t.SI.terminal = 's' → arr.getD IDX 0 = t.size mem₀) ∧
      arr.drop (storeTaken arr (IDX, s) t).1 = strSizes mem₀ ts ++ zs := by
  rw [strSizes_cons] at harr
  constructor
  · intro hs
    rw [if_pos hs] at harr
    have hget := congrArg (fun l => l.getD 0 0) harr
    simpa using hget
  · simp only [storeTaken]
    split_ifs with hs
    · rw [if_pos hs] at harr
      rw [← List.drop_drop, harr]
      rfl
    · rwa [if_neg hs] at harr

/-- **A whole run** does, if the array has the sizes of the strings. -/
lemma laidOut_foldl {ts : List (Taken Arg)} {mem₀ : Mem} {zs : List ℕ}
    (h : LaidOut mem hs arr a b IDX s) (harr : arr.drop IDX = strSizes mem₀ ts ++ zs) :
    LaidOut mem hs arr a b (ts.foldl (storeTaken arr) (IDX, s)).1
        (ts.foldl (storeTaken arr) (IDX, s)).2 ∧
      (ts.foldl (storeTaken arr) (IDX, s)).2.storage =
        s.storage + (ts.map Taken.slotSize).sum ∧
      (ts.foldl (storeTaken arr) (IDX, s)).2.storage2 =
        s.storage2 + (strSizes mem₀ ts).sum := by
  induction ts generalizing IDX s with
  | nil => exact ⟨h, rfl, rfl⟩
  | cons t ts ih =>
      obtain ⟨hsize, hrest⟩ := strSizes_of_drop s harr
      obtain ⟨h1, h2⟩ := storeTaken_cursors s hsize
      obtain ⟨hlaid, h3, h4⟩ := ih (h.storeTaken hsize) hrest
      rw [List.foldl_cons, List.map_cons, List.sum_cons, strSizes_cons]
      refine ⟨hlaid, ?_, ?_⟩
      · rw [h3, h1, Nat.add_assoc]
      · rw [h4, h2]
        split_ifs with hs
        · rw [List.sum_cons, Nat.add_assoc]
        · rfl

/-! ### Packs -/

lemma getNArgsSize_append (Ts Us : List CType) (N : ℕ) :
    getNArgsSize (Ts.length + N) (Ts ++ Us) = (Ts.map CType.size).sum + getNArgsSize N Us := by
  induction Ts with
  | nil => simp
  | cons T Ts ih =>
      rw [List.length_cons, Nat.add_right_comm, List.cons_append, getNArgsSize, ih, List.map_cons,
        List.sum_cons, Nat.add_assoc]

/-- The arguments of a pack take the size that `argsSize` computes. -/
lemma getNArgsSize_eq {SIs : List SpecInfo} (h : IsPack SIs) {args : List Arg}
    {ts : List (Taken Arg)} (hts : takeAll SIs args = some ts) :
    getNArgsSize (countArgsRequired SIs) (args.map Arg.type) = (ts.map Taken.slotSize).sum := by
  induction SIs generalizing args ts with
  | nil => exact absurd h id
  | cons SI SIs ih =>
      by_cases htail : SIs = []
      · subst htail
        obtain rfl : [] = ts := by simpa [takeAll] using hts
        rw [h.countArgsRequired_last]
        cases args <;> rfl
      · obtain ⟨ht, hrest⟩ := h.cons htail
        rw [takeAll_cons SI htail] at hts
        obtain ⟨⟨ds, arg, rest⟩, htake, hts⟩ := Option.bind_eq_some_iff.mp hts
        obtain ⟨ts, htail', rfl⟩ := Option.map_eq_some_iff.mp hts
        obtain ⟨rfl, hds⟩ := takeArgs_some htake
        have happend : (ds ++ arg :: rest).map Arg.type =
            (ds.map Arg.type ++ [arg.type]) ++ rest.map Arg.type := by simp
        have hlen : numDynamic SI + 1 = (ds.map Arg.type ++ [arg.type]).length := by simp [hds]
        rw [countArgsRequired_cons ht, happend, hlen, getNArgsSize_append, ih hrest htail']
        simp [Taken.slotSize, Function.comp_def]

/-- Enough arguments are dealt out, and they take the size that `argsSize` computes. -/
lemma takeAll_of_isPack {SIs : List SpecInfo} (h : IsPack SIs) {args : List Arg}
    (hargs : countArgsRequired SIs ≤ args.length) :
    ∃ ts, takeAll SIs args = some ts ∧
      argsSize SIs (args.map Arg.type) = some (ts.map Taken.slotSize).sum := by
  obtain ⟨ts, hts⟩ := exists_takeAll h hargs
  refine ⟨ts, hts, ?_⟩
  rw [argsSize, if_pos (by rwa [List.length_map]), getNArgsSize_eq h hts]

lemma length_strSizes {SIs : List SpecInfo} (h : IsPack SIs) {args : List Arg}
    {ts : List (Taken Arg)} (hts : takeAll SIs args = some ts) (mem : Mem) :
    (strSizes mem ts).length = getStrsNum SIs := by
  induction SIs generalizing args ts with
  | nil => exact absurd h id
  | cons SI SIs ih =>
      by_cases htail : SIs = []
      · subst htail
        obtain rfl : [] = ts := by simpa [takeAll] using hts
        have hs : SI.terminal ≠ 's' := by
          rintro hs
          have ht := h.1
          rw [hs] at ht
          exact absurd ht (by decide)
        simp [getStrsNum, strSizes, hs]
      · rw [takeAll_cons SI htail] at hts
        obtain ⟨⟨ds, arg, rest⟩, -, hts⟩ := Option.bind_eq_some_iff.mp hts
        obtain ⟨ts', hts', rfl⟩ := Option.map_eq_some_iff.mp hts
        obtain ⟨SI', SIs, rfl⟩ := List.exists_cons_of_ne_nil htail
        have hlen := ih h.2 hts'
        rw [getStrsNum] at hlen ⊢
        rw [List.countP_cons, ← hlen, strSizes_cons]
        by_cases hs : SI.terminal = 's' <;> simp [hs]

/-- The array of sizes: one for each `s`. -/
lemma strSizeArray_eq {SIs : List SpecInfo} (h : IsPack SIs) {args : List Arg}
    {ts : List (Taken Arg)} (hts : takeAll SIs args = some ts) (mem : Mem) :
    strSizeArray mem SIs args = some (strSizes mem ts) := by
  have hlen := length_strSizes h hts mem
  rw [strSizeArray]
  by_cases hpos : 0 < getStrsNum SIs
  · have heq := getStrSizeArray_eq mem h.ne_nil args [] (n := getStrsNum SIs) le_rfl
    rw [hts] at heq
    simpa [hpos, hlen] using heq
  · have hnil : strSizes mem ts = [] := List.length_eq_zero_iff.mp (by omega)
    simp [hnil, show getStrsNum SIs = 0 by omega]

/-! ### `TZ_LOG` -/

/-- A published entry: all its stores are in the reserved bytes, as many are published and they
are one log entry of that size. -/
structure LogCall.Publishes (call : LogCall) (mem : Mem) (pos n : ℕ) (status : LogEntryStatus) :
    Prop where
  reserved_eq : call.reserved = n
  finished_eq : call.finished = n
  writePos_eq : call.writePos = pos + n
  inside : ∀ st ∈ call.out.all, pos ≤ st.addr ∧ st.stop ≤ pos + n
  mem_eq : call.out.mem = replay mem call.out.all
  entry : IsLogEntry (slice call.out.mem pos n)
  status_eq : call.out.mem (pos + 12) = status.toByte

/-- The arguments of an entry: slots of `kArgsSize` bytes behind the `OneLogEntry`, and behind
them the strings, each of the size in the array. -/
structure LogCall.HoldsArgs (call : LogCall) (pos kArgsSize : ℕ) (arr : List ℕ) : Prop where
  slots : Tiles (pos + sizeofOneLogEntry) call.out.slots (pos + sizeofOneLogEntry + kArgsSize)
  strings : Tiles (pos + sizeofOneLogEntry + kArgsSize) call.out.strings
    (pos + (kArgsSize + sizeofOneLogEntry + arr.sum))
  string : ∀ k < arr.length, ∃ x, Tiles x (call.out.string k) (x + arr.getD k 0)
  apart : (call.out.tagged (· != .header)).Pairwise Store.Apart

lemma putHeader_mem (s : Storage) (pos fmtId n : ℕ) (status : LogEntryStatus) (timestamp : ℕ) :
    slice (s.putHeader pos fmtId n status timestamp).mem (pos + 8) 4 = leBytes 4 n ∧
      (s.putHeader pos fmtId n status timestamp).mem (pos + 12) = status.toByte := by
  simp only [Storage.putHeader, Storage.mem_put]
  constructor
  · rw [slice_writeAt_of_disjoint (.inl (by omega)), slice_writeAt_of_disjoint (.inl (by omega))]
    exact slice_writeAt_self _ _ (leBytes 4 n)
  · rw [writeAt_of_disjoint (.inl (by omega))]
    simp [writeAt]

lemma tagged_putHeader (s : Storage) (pos fmtId n : ℕ) (status : LogEntryStatus) (timestamp : ℕ)
    {q : Part → Bool} (hq : q .header = false) :
    (s.putHeader pos fmtId n status timestamp).tagged q = s.tagged q := by
  simp [Storage.putHeader, hq]

/-- The fields of the `OneLogEntry` make the bytes an entry. -/
lemma publishes_putHeader {mem : Mem} {s : Storage} {pos n : ℕ} (hmem : s.mem = replay mem s.all)
    (hinside : ∀ st ∈ s.all, pos ≤ st.addr ∧ st.stop ≤ pos + n) (hn : sizeofOneLogEntry ≤ n)
    (hlt : n < 2 ^ 32) (fmtId : ℕ) (status : LogEntryStatus) (timestamp : ℕ) :
    LogCall.Publishes
      { reserved := n
        finished := n
        writePos := pos + n
        out := s.putHeader pos fmtId n status timestamp } mem pos n status := by
  obtain ⟨hsize, hstatus⟩ := putHeader_mem s pos fmtId n status timestamp
  have hn' : 24 ≤ n := hn
  have hall : (s.putHeader pos fmtId n status timestamp).all = s.all ++
      [⟨pos, leBytes 8 fmtId⟩, ⟨pos + 8, leBytes 4 n⟩, ⟨pos + 12, [status.toByte]⟩,
        ⟨pos + 16, leBytes 8 timestamp⟩] := by
    simp [Storage.putHeader]
  constructor
  · rfl
  · rfl
  · rfl
  · intro st hst
    rw [hall] at hst
    rcases List.mem_append.mp hst with hst | hst
    · exact hinside st hst
    · simp only [List.mem_cons, List.not_mem_nil, or_false] at hst
      rcases hst with rfl | rfl | rfl | rfl <;>
        simp only [Store.stop, length_leBytes, List.length_singleton] <;> omega
  · rw [hall, replay_append, ← hmem]
    rfl
  · constructor
    · rw [length_slice]
      exact hn
    · rw [entrySize, length_slice, drop_slice _ _ (by omega), take_slice _ _ (by omega), hsize,
        leValue_leBytes (by omega)]
  · exact hstatus

/-- Nothing but the `OneLogEntry` is stored. -/
lemma tagged_of_header {s : Storage} (h : ∀ x ∈ s.stores, x.1 = .header) {q : Part → Bool}
    (hq : q .header = false) : s.tagged q = [] := by
  rw [Storage.tagged, List.map_eq_nil_iff, List.filter_eq_nil_iff]
  intro x hx
  rw [h x hx, hq]
  decide

/-- Behind a `OneLogEntry` nothing is laid out yet. -/
lemma laidOut_of_header (hmem : s.mem = replay mem s.all)
    (hheader : ∀ x ∈ s.stores, x.1 = .header) :
    LaidOut mem s.all arr s.storage s.storage2 0 s := by
  have hnil : ∀ q : Part → Bool, q .header = false → s.tagged q = [] :=
    fun q hq => tagged_of_header hheader hq
  constructor
  · rw [Storage.slots, hnil _ (by decide)]
    rfl
  · rw [Storage.strings, hnil _ (by decide)]
    rfl
  · intro k hk
    exact absurd hk (Nat.not_lt_zero k)
  · intro k _
    exact hnil _ (beq_eq_false_iff_ne.mpr (by simp))
  · rw [Storage.all, Storage.tagged, List.filter_eq_self.mpr]
    intro x hx
    rw [hheader x hx]
    decide
  · exact hmem

/-- The index and the cursors after the rounds of `dump`. -/
def afterDump (arr : List ℕ) (ts : List (Taken Arg)) (s : Storage) : ℕ × Storage :=
  ts.foldl (storeTaken arr)
    (0, { s with storage2 := s.storage + (ts.map Taken.slotSize).sum })

lemma dump_eq {SIs : List SpecInfo} (hne : SIs ≠ []) {args : List Arg} {ts : List (Taken Arg)}
    (hts : takeAll SIs args = some ts) (arr : List ℕ) (s : Storage) :
    dump (ts.map Taken.slotSize).sum arr SIs args s =
      some { (afterDump arr ts s).2 with storage := (afterDump arr ts s).2.storage2 } := by
  rw [dump, storeArgs_eq arr 0 hne, hts]
  rfl

lemma fst_foldl_storeTaken (arr : List ℕ) (mem : Mem) (ts : List (Taken Arg)) (IDX : ℕ)
    (s : Storage) :
    (ts.foldl (storeTaken arr) (IDX, s)).1 = IDX + (strSizes mem ts).length := by
  induction ts generalizing IDX s with
  | nil => rfl
  | cons t ts ih =>
      rw [List.foldl_cons, strSizes_cons, storeTaken, ih]
      split_ifs
      · rw [List.length_cons]
        omega
      · rfl

/-- What `dump` lays out behind a `OneLogEntry`. -/
lemma laidOut_afterDump {ts : List (Taken Arg)} {mem₀ : Mem} {zs : List ℕ}
    (harr : arr = strSizes mem₀ ts ++ zs) (hmem : s.mem = replay mem s.all)
    (hheader : ∀ x ∈ s.stores, x.1 = .header) :
    (afterDump arr ts s).2.storage = s.storage + (ts.map Taken.slotSize).sum ∧
      (afterDump arr ts s).2.storage2 =
        s.storage + (ts.map Taken.slotSize).sum + (strSizes mem₀ ts).sum ∧
      LaidOut mem s.all arr s.storage (s.storage + (ts.map Taken.slotSize).sum)
        (strSizes mem₀ ts).length (afterDump arr ts s).2 := by
  have hstart : LaidOut mem s.all arr s.storage (s.storage + (ts.map Taken.slotSize).sum) 0
      { s with storage2 := s.storage + (ts.map Taken.slotSize).sum } :=
    laidOut_of_header (s := { s with storage2 := s.storage + (ts.map Taken.slotSize).sum })
      hmem hheader
  have hdrop : arr.drop 0 = strSizes mem₀ ts ++ zs := by rw [List.drop_zero, harr]
  obtain ⟨hlaid, h1, h2⟩ := laidOut_foldl hstart hdrop
  rw [fst_foldl_storeTaken arr mem₀, Nat.zero_add] at hlaid
  exact ⟨h1, h2, hlaid⟩

/-- The stores of slots and strings do not overlap. -/
lemma LaidOut.apart (h : LaidOut mem hs arr a b IDX s) (hb : s.storage = b) :
    (s.tagged (· != .header)).Pairwise Store.Apart := by
  have hslot : (s.stores.filter fun x => x.1 != .header).filter (fun x => x.1 == .slot) =
      s.stores.filter fun x => x.1 == .slot := by
    rw [List.filter_filter]
    refine List.filter_congr fun x _ => ?_
    cases x.1 <;> simp
  have hstring : (s.stores.filter fun x => x.1 != .header).filter (fun x => !(x.1 == .slot)) =
      s.stores.filter fun x => Storage.isString x.1 := by
    rw [List.filter_filter]
    refine List.filter_congr fun x _ => ?_
    cases x.1 <;> simp [Storage.isString]
  have hperm := List.filter_append_perm (fun x : Part × Store UInt8 => x.1 == .slot)
    (s.stores.filter fun x => x.1 != .header)
  rw [hslot, hstring] at hperm
  have hmap := hperm.map Prod.snd
  rw [List.map_append] at hmap
  exact Tiles.pairwise_perm (hb ▸ h.slots) h.strings hmap

/-- Every store is one of the `OneLogEntry`, or it is between the two ends. -/
lemma LaidOut.mem_all (h : LaidOut mem hs arr a b IDX s) (hb : s.storage = b) :
    ∀ st ∈ s.all, st ∈ hs ∨ a ≤ st.addr ∧ st.stop ≤ s.storage2 := by
  intro st hst
  obtain ⟨⟨p, st⟩, hmem, rfl⟩ := List.mem_map.mp hst
  have htag : ∀ q : Part → Bool, q p = true → st ∈ s.tagged q := by
    intro q hq
    exact List.mem_map.mpr ⟨(p, st), List.mem_filter.mpr ⟨hmem, hq⟩, rfl⟩
  have hle := h.slots.le
  have hle' := h.strings.le
  cases p with
  | header => exact .inl (h.header_eq ▸ htag _ (by simp))
  | slot =>
      have hbounds := h.slots.bounds st (htag _ (by simp))
      exact .inr ⟨hbounds.1, hbounds.2.trans (hb.le.trans hle')⟩
  | string k =>
      have hbounds := h.strings.bounds st (htag _ (by simp [Storage.isString]))
      exact .inr ⟨(hle.trans hb.le).trans hbounds.1, hbounds.2⟩

lemma foldl_add (ns : List ℕ) (n : ℕ) : ns.foldl (· + ·) n = n + ns.sum := by
  induction ns generalizing n with
  | nil => rfl
  | cons m ns ih => rw [List.foldl_cons, ih, List.sum_cons, Nat.add_assoc]

/-- The memory with the new `OneLogEntry`. -/
def startEntry (mem : Mem) (pos : ℕ) : Storage :=
  { Storage.put { storage := pos, storage2 := 0, mem := mem } .header pos
      (List.replicate sizeofOneLogEntry 0) with
    storage := pos + sizeofOneLogEntry }

lemma startEntry_header (mem : Mem) (pos : ℕ) :
    (startEntry mem pos).mem = replay mem (startEntry mem pos).all ∧
      (∀ x ∈ (startEntry mem pos).stores, x.1 = .header) ∧
      ∀ st ∈ (startEntry mem pos).all, pos ≤ st.addr ∧ st.stop ≤ pos + sizeofOneLogEntry := by
  refine ⟨rfl, ?_, ?_⟩
  · intro x hx
    rw [List.mem_singleton.mp hx]
  · intro st hst
    rw [List.mem_singleton.mp hst, Store.stop, List.length_replicate]
    exact ⟨le_rfl, le_rfl⟩

/-- A call with a small entry. -/
lemma tzLog_small {SIs : List SpecInfo} (hpack : IsPack SIs) {args : List Arg}
    {ts : List (Taken Arg)} (hts : takeAll SIs args = some ts)
    (hkArgs : argsSize SIs (args.map Arg.type) = some (ts.map Taken.slotSize).sum) {mem : Mem}
    {n : ℕ} (hn : (ts.map Taken.slotSize).sum + sizeofOneLogEntry + (strSizes mem ts).sum = n)
    (hle : n ≤ formatArgsMaximumSize) (fmtInfo timestamp pos : ℕ) :
    tzLog mem SIs args fmtInfo timestamp pos = some
      { reserved := n
        finished := n
        writePos := (afterDump (strSizes mem ts) ts (startEntry mem pos)).2.storage2
        out := Storage.putHeader
          { (afterDump (strSizes mem ts) ts (startEntry mem pos)).2 with
            storage := (afterDump (strSizes mem ts) ts (startEntry mem pos)).2.storage2 }
          pos fmtInfo n .normal timestamp } := by
  simp only [tzLog, hkArgs, strSizeArray_eq hpack hts mem, Option.bind_eq_bind, Option.bind_some,
    foldl_add, hn, if_pos hle]
  rw [← startEntry, dump_eq hpack.ne_nil hts]
  rfl

/-- A call with an entry that is too large. -/
lemma tzLog_large {SIs : List SpecInfo} (hpack : IsPack SIs) {args : List Arg}
    {ts : List (Taken Arg)} (hts : takeAll SIs args = some ts)
    (hkArgs : argsSize SIs (args.map Arg.type) = some (ts.map Taken.slotSize).sum) {mem : Mem}
    {n : ℕ} (hn : (ts.map Taken.slotSize).sum + sizeofOneLogEntry + (strSizes mem ts).sum = n)
    (hlt : formatArgsMaximumSize < n) (fmtInfo timestamp pos : ℕ) :
    tzLog mem SIs args fmtInfo timestamp pos = some
      { reserved := sizeofOneLogEntry + 8
        finished := sizeofOneLogEntry + 8
        writePos := pos + (sizeofOneLogEntry + 8)
        out := ((startEntry mem pos).put .header (pos + sizeofOneLogEntry)
          (leBytes 8 n)).putHeader pos fmtInfo (sizeofOneLogEntry + 8) .illegalArgsSize
            timestamp } := by
  simp only [tzLog, hkArgs, strSizeArray_eq hpack hts mem, Option.bind_eq_bind, Option.bind_some,
    foldl_add, hn, if_neg (not_le.mpr hlt)]
  rfl

/-- What a call of `TZ_LOG` should do. The array of sizes has the size of the string of each
`s`. If the entry is small enough, its arguments and strings are stored one behind the other,
without overlap, up to the end of the reserved bytes, and it is published; if not, an illegal
entry is published, which says the size and has no arguments. -/
def LogsOneEntry (mem : Mem) (SIs : List SpecInfo) (args : List Arg) (fmtInfo timestamp pos : ℕ) :
    Prop :=
  ∃ ts kArgsSize arr call, takeAll SIs args = some ts ∧
    argsSize SIs (args.map Arg.type) = some kArgsSize ∧
    strSizeArray mem SIs args = some arr ∧ arr = strSizes mem ts ∧
    tzLog mem SIs args fmtInfo timestamp pos = some call ∧
    (kArgsSize + sizeofOneLogEntry + arr.sum ≤ formatArgsMaximumSize →
      call.Publishes mem pos (kArgsSize + sizeofOneLogEntry + arr.sum) .normal ∧
        call.HoldsArgs pos kArgsSize arr) ∧
    (formatArgsMaximumSize < kArgsSize + sizeofOneLogEntry + arr.sum →
      call.Publishes mem pos (sizeofOneLogEntry + 8) .illegalArgsSize ∧
        slice call.out.mem (pos + sizeofOneLogEntry) 8 =
          leBytes 8 (kArgsSize + sizeofOneLogEntry + arr.sum) ∧
        ∀ x ∈ call.out.stores, x.1 = .header)

/-- **One entry for each call** of `TZ_LOG` that compiles. -/
theorem tzLog_entry {f : List Char} (hf : nul ∉ f) (hfit : ∀ p ∈ scan f, p.FitsInt)
    {SIs : List SpecInfo} (hSIs : specInfos (f ++ [nul]) = .ok SIs) {args : List Arg}
    (hargs : countArgsRequired SIs ≤ args.length) (mem : Mem) (fmtInfo timestamp pos : ℕ) :
    LogsOneEntry mem SIs args fmtInfo timestamp pos := by
  have hpack := isPack_specInfos hf hfit hSIs
  obtain ⟨ts, hts, hkArgs⟩ := takeAll_of_isPack hpack hargs
  have hstr := strSizeArray_eq hpack hts mem
  obtain ⟨n, hn⟩ : ∃ n, (ts.map Taken.slotSize).sum + sizeofOneLogEntry +
      (strSizes mem ts).sum = n := ⟨_, rfl⟩
  obtain ⟨hmem, hheader, hinside⟩ := startEntry_header mem pos
  rcases le_or_gt n formatArgsMaximumSize with hle | hlt
  · refine ⟨ts, _, _, _, hts, hkArgs, hstr, rfl,
      tzLog_small hpack hts hkArgs hn hle fmtInfo timestamp pos, fun _ => ?_, fun hlt => ?_⟩
    · obtain ⟨h1, h2, hlaid⟩ :=
        laidOut_afterDump (List.append_nil (strSizes mem ts)).symm hmem hheader
      have hend : (afterDump (strSizes mem ts) ts (startEntry mem pos)).2.storage2 = pos + n := by
        have hstorage : (startEntry mem pos).storage = pos + sizeofOneLogEntry := rfl
        omega
      have hge : sizeofOneLogEntry ≤ n := by omega
      rw [hn]
      constructor
      · rw [hend]
        refine publishes_putHeader
          (s := { (afterDump (strSizes mem ts) ts (startEntry mem pos)).2 with storage := pos + n })
          hlaid.mem_eq (fun st hst => ?_) hge ?_ _ _ _
        · rcases hlaid.mem_all h1 st hst with hst | ⟨hlo, hhi⟩
          · have := hinside st hst
            omega
          · rw [hend] at hhi
            exact ⟨le_trans (Nat.le_add_right _ _) hlo, hhi⟩
        · exact lt_of_le_of_lt hle (by decide)
      · constructor
        · rw [Storage.slots, tagged_putHeader _ _ _ _ _ _ (by decide)]
          have hslots := hlaid.slots
          rwa [h1] at hslots
        · rw [hn, Storage.strings, tagged_putHeader _ _ _ _ _ _ (by decide), ← hend]
          exact hlaid.strings
        · intro k hk
          rw [Storage.string, tagged_putHeader (q := fun x => x == .string k) _ _ _ _ _ _ (by simp)]
          exact hlaid.string_lt k hk
        · rw [tagged_putHeader _ _ _ _ _ _ (by decide)]
          exact hlaid.apart h1
    · omega
  · refine ⟨ts, _, _, _, hts, hkArgs, hstr, rfl,
      tzLog_large hpack hts hkArgs hn hlt fmtInfo timestamp pos, fun hle => ?_, fun _ => ?_⟩
    · omega
    · refine ⟨?_, ?_, ?_⟩
      · refine publishes_putHeader ?_ (fun st hst => ?_) (Nat.le_add_right _ _) (by decide) _ _ _
        · rw [Storage.all_put, replay_append, ← hmem]
          rfl
        · rw [Storage.all_put] at hst
          rcases List.mem_append.mp hst with hst | hst
          · have := hinside st hst
            omega
          · rw [List.mem_singleton.mp hst, Store.stop, length_leBytes, Nat.add_assoc]
            exact ⟨Nat.le_add_right _ _, le_rfl⟩
      · rw [hn]
        simp only [Storage.putHeader, Storage.mem_put, sizeofOneLogEntry]
        rw [slice_writeAt_of_disjoint (.inr (by simp)),
          slice_writeAt_of_disjoint (.inr (by simp)),
          slice_writeAt_of_disjoint (.inr (by simp)),
          slice_writeAt_of_disjoint (.inr (by simp))]
        exact slice_writeAt_self _ _ (leBytes 8 n)
      · intro x hx
        simp only [Storage.putHeader, Storage.put, List.mem_append, List.mem_singleton] at hx
        rcases hx with ((((hx | rfl) | rfl) | rfl) | rfl) | rfl
        · exact hheader x hx
        all_goals rfl

/-- The strings "ab" at 4096 and "xyz" at 4100. -/
def twoStrings : Mem := writeAt (writeAt (fun _ => 0) 4096 [97, 98]) 4100 [120, 121, 122]

/-- The arguments of `"%s:%*d %s"`: the two strings, and 7 with the width 5 between them. -/
def twoStringArgs : List Arg :=
  [strArg 4096, IntSpec.intArg 5, IntSpec.intArg 7, strArg 4100]

/-- `TZ_LOG(severity, "%s:%*d %s", "ab", 5, 7, "xyz")`: an entry of 55 bytes, with four slots and
two strings. -/
theorem tzLog_entry_sample :
    ∃ SIs call, specInfos ("%s:%*d %s".toList ++ [nul]) = .ok SIs ∧
      tzLog twoStrings SIs twoStringArgs 1 2 64 = some call ∧
      call.Publishes twoStrings 64 55 .normal ∧ call.HoldsArgs 64 24 [3, 4] := by
  obtain ⟨ts, kArgsSize, arr, call, -, hkArgs, harr, -, hcall, hsmall, -⟩ :=
    tzLog_entry (f := "%s:%*d %s".toList) (by decide) (by decide) rfl
      (show countArgsRequired _ ≤ twoStringArgs.length by decide) twoStrings 1 2 64
  obtain rfl : 24 = kArgsSize := Option.some.inj hkArgs
  obtain rfl : [3, 4] = arr := Option.some.inj harr
  obtain ⟨hpublishes, hholds⟩ := hsmall (by decide)
  exact ⟨_, call, rfl, hcall, hpublishes, hholds⟩

end ConstexprFmtStr
