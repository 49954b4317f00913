import Mathlib.Tactic

/-!
The search for a word in a text, as the `find` of a string class does it.

* `At`, `places`: where the word stands.
* `find`, `findFrom`: its first place, and the first one from a position on.
* `Unbordered`: a word whose first letter does not come again, so that no two places of it overlap.
  `isSome_second`: the search behind the first place finds another one exactly if there are two.
-/

namespace Search

variable {α : Type*} {word text : List α} {i j : ℕ}

/-- The word stands in the text at `i`. -/
def At (word text : List α) (i : ℕ) : Prop := word <+: text.drop i

lemma At.lt (h : At word text i) (hne : word ≠ []) : i < text.length := by
  by_contra hle
  rw [At, List.drop_eq_nil_of_le (not_lt.mp hle)] at h
  exact hne (List.prefix_nil.mp h)

/-- The place cuts the text. -/
lemma At.split (h : At word text i) :
    text = text.take i ++ word ++ text.drop (i + word.length) := by
  obtain ⟨rest, hrest⟩ := h
  have hdrop : text.drop (i + word.length) = rest := by
    rw [← List.drop_drop, ← hrest, List.drop_left]
  rw [hdrop, List.append_assoc, hrest, List.take_append_drop]

lemma at_append (before word after : List α) :
    At word (before ++ word ++ after) before.length := by
  rw [At, List.append_assoc, List.drop_left]
  exact List.prefix_append _ _

/-! ### Words that do not overlap themselves -/

/-- The first letter of the word does not come again. -/
def Unbordered (word : List α) : Prop := ∃ c cs, word = c :: cs ∧ c ∉ cs

lemma Unbordered.ne_nil (h : Unbordered word) : word ≠ [] := by
  obtain ⟨c, cs, rfl, -⟩ := h
  exact List.cons_ne_nil c cs

/-- No two places overlap. -/
lemma Unbordered.apart (h : Unbordered word) (hi : At word text i) (hj : At word text j)
    (hlt : i < j) : i + word.length ≤ j := by
  obtain ⟨c, cs, rfl, hc⟩ := h
  by_contra hover
  obtain ⟨k, rfl⟩ : ∃ k, j = i + (k + 1) := ⟨j - i - 1, by omega⟩
  rw [List.length_cons] at hover
  have hk : k < cs.length := by omega
  -- the first letter of the one place is in the other
  have hat : (text.drop i)[k + 1]? = some c := by
    obtain ⟨rest, hrest⟩ := hj
    have hhead := congrArg (fun l => l[0]?) hrest
    simpa using hhead.symm
  obtain ⟨rest, hrest⟩ := hi
  rw [← hrest, List.cons_append, List.getElem?_cons_succ, List.getElem?_append_left hk] at hat
  exact hc (List.mem_of_getElem? hat)

/-! ### The first place -/

variable [DecidableEq α]

instance (word text : List α) : DecidablePred (At word text) :=
  fun i => inferInstanceAs (Decidable (word <+: text.drop i))

/-- All the places of the word. -/
def places (word text : List α) : Finset ℕ := {i ∈ Finset.range text.length | At word text i}

/-- The first place of the word. -/
def find (word : List α) : List α → Option ℕ
  | [] => if word = [] then some 0 else none
  | c :: cs => if word <+: c :: cs then some 0 else (find word cs).map (· + 1)

/-- The first place of the word from `pos` on. -/
def findFrom (word text : List α) (pos : ℕ) : Option ℕ :=
  if pos ≤ text.length then (find word (text.drop pos)).map (· + pos) else none

lemma mem_places (hne : word ≠ []) : i ∈ places word text ↔ At word text i := by
  rw [places, Finset.mem_filter, Finset.mem_range]
  exact ⟨fun h => h.2, fun h => ⟨h.lt hne, h⟩⟩

lemma at_of_find (h : find word text = some i) : At word text i := by
  induction text generalizing i with
  | nil =>
      rw [find] at h
      split_ifs at h with hnil
      rw [hnil]
      exact List.nil_prefix
  | cons c cs ih =>
      rw [find] at h
      split_ifs at h with hhere
      · rw [← Option.some.inj h]
        exact hhere
      · obtain ⟨k, hk, rfl⟩ := Option.map_eq_some_iff.mp h
        exact ih hk

lemma le_of_find (h : find word text = some i) (hj : At word text j) : i ≤ j := by
  induction text generalizing i j with
  | nil =>
      rw [find] at h
      split_ifs at h with hnil
      rw [← Option.some.inj h]
      exact Nat.zero_le j
  | cons c cs ih =>
      rw [find] at h
      split_ifs at h with hhere
      · rw [← Option.some.inj h]
        exact Nat.zero_le j
      · obtain ⟨k, hk, rfl⟩ := Option.map_eq_some_iff.mp h
        cases j with
        | zero => exact absurd hj hhere
        | succ j => exact Nat.succ_le_succ (ih hk hj)

lemma find_eq_none (hne : word ≠ []) : find word text = none ↔ ∀ i, ¬At word text i := by
  induction text with
  | nil =>
      rw [find, if_neg hne]
      refine iff_of_true rfl fun i hi => ?_
      exact absurd (hi.lt hne) (Nat.not_lt_zero i)
  | cons c cs ih =>
      rw [find]
      by_cases hhere : word <+: c :: cs
      · rw [if_pos hhere]
        refine iff_of_false (by simp) fun h => ?_
        exact h 0 hhere
      · rw [if_neg hhere, Option.map_eq_none_iff, ih]
        constructor
        · intro h i
          cases i with
          | zero => exact hhere
          | succ i => exact h i
        · intro h i
          exact h (i + 1)

/-- The search fails exactly if there is no place. -/
lemma card_places_eq_zero (hne : word ≠ []) :
    (places word text).card = 0 ↔ find word text = none := by
  rw [Finset.card_eq_zero, Finset.eq_empty_iff_forall_notMem, find_eq_none hne]
  exact forall_congr' fun i => not_congr (mem_places hne)

lemma isSome_findFrom (hne : word ≠ []) (pos : ℕ) :
    (findFrom word text pos).isSome ↔ ∃ i, pos ≤ i ∧ At word text i := by
  have hdrop : ∀ k, At word (text.drop pos) k ↔ At word text (pos + k) := by
    intro k
    rw [At, At, List.drop_drop]
  rw [findFrom]
  split_ifs with hpos
  · rw [Option.isSome_map, Option.isSome_iff_ne_none, ne_eq, find_eq_none hne, not_forall_not]
    constructor
    · rintro ⟨k, hk⟩
      exact ⟨pos + k, Nat.le_add_right _ _, (hdrop k).mp hk⟩
    · rintro ⟨i, hle, hi⟩
      refine ⟨i - pos, (hdrop _).mpr ?_⟩
      rwa [Nat.add_sub_cancel' hle]
  · refine iff_of_false (by simp) ?_
    rintro ⟨i, hle, hi⟩
    have hlt := hi.lt hne
    omega

/-- **Two places.** Behind the first place there is another one exactly if there are two. -/
theorem isSome_second (h : Unbordered word) (hfind : find word text = some i) :
    (findFrom word text (i + word.length)).isSome ↔ 1 < (places word text).card := by
  have hne := h.ne_nil
  have hi := at_of_find hfind
  rw [isSome_findFrom hne, Finset.one_lt_card]
  constructor
  · rintro ⟨j, hle, hj⟩
    have hpos := List.length_pos_iff.mpr hne
    exact ⟨i, (mem_places hne).mpr hi, j, (mem_places hne).mpr hj, by omega⟩
  · rintro ⟨a, ha, b, hb, hab⟩
    rw [mem_places hne] at ha hb
    have hia := le_of_find hfind ha
    have hib := le_of_find hfind hb
    by_cases heq : a = i
    · exact ⟨b, h.apart hi hb (by omega), hb⟩
    · exact ⟨a, h.apart hi ha (by omega), ha⟩

end Search
