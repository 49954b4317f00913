import Mathlib.Tactic
import ConstexprFmtStr.Lib.Slice

/-!
Block stores into a memory, as data.

* `Store`, `replay`: a block with its address, and the memory after some of them.
* `Apart`: two stores that do not overlap.
* `Tiles`: stores one behind the other, from one address to another; `Tiles.pairwise`,
  `Tiles.bounds`.
-/

namespace Slice

variable {β : Type*}

/-- The block `cells`, written from the address `addr` on. -/
structure Store (β : Type*) where
  addr : ℕ
  cells : List β

namespace Store

/-- The first address behind the block. -/
def stop (s : Store β) : ℕ := s.addr + s.cells.length

/-- The stores do not overlap. -/
def Apart (s t : Store β) : Prop := s.stop ≤ t.addr ∨ t.stop ≤ s.addr

lemma Apart.symm {s t : Store β} (h : s.Apart t) : t.Apart s := Or.symm h

end Store

/-- The memory after the stores, made from left to right. -/
def replay (f : ℕ → β) (ss : List (Store β)) : ℕ → β :=
  ss.foldl (fun f s => writeAt f s.addr s.cells) f

@[simp] lemma replay_nil (f : ℕ → β) : replay f [] = f := rfl

/-- Blocks that do not overlap, in either order. -/
lemma writeAt_comm {f : ℕ → β} {a b : ℕ} {bs cs : List β}
    (h : a + bs.length ≤ b ∨ b + cs.length ≤ a) :
    writeAt (writeAt f a bs) b cs = writeAt (writeAt f b cs) a bs := by
  have hat : ∀ {g g' : ℕ → β} {c i : ℕ} (ds : List β), g i = g' i →
      writeAt g c ds i = writeAt g' c ds i := by
    intro g g' c i ds hg
    rw [writeAt, writeAt, hg]
  funext i
  by_cases hi : i < a ∨ a + bs.length ≤ i
  · rw [writeAt_of_disjoint (a := a) hi, hat cs (writeAt_of_disjoint hi)]
  · have hi' : i < b ∨ b + cs.length ≤ i := by omega
    rw [writeAt_of_disjoint (a := b) hi', hat bs (writeAt_of_disjoint hi')]

lemma replay_append (f : ℕ → β) (ss ts : List (Store β)) :
    replay f (ss ++ ts) = replay (replay f ss) ts := List.foldl_append

lemma replay_cons (f : ℕ → β) (s : Store β) (ss : List (Store β)) :
    replay f (s :: ss) = replay (writeAt f s.addr s.cells) ss := rfl

/-- Nothing changes beside the stores. -/
lemma replay_frame {f : ℕ → β} {ss : List (Store β)} {i : ℕ}
    (h : ∀ s ∈ ss, i < s.addr ∨ s.stop ≤ i) : replay f ss i = f i := by
  induction ss generalizing f with
  | nil => rfl
  | cons s ss ih =>
      rw [replay_cons, ih fun t ht => h t (List.mem_cons_of_mem _ ht)]
      exact writeAt_of_disjoint (h s List.mem_cons_self)

/-! ### Tiles -/

/-- The stores follow one another from `a` to `b`. -/
def Tiles : ℕ → List (Store β) → ℕ → Prop
  | a, [], b => a = b
  | a, s :: ss, b => s.addr = a ∧ Tiles s.stop ss b

lemma Tiles.append {a b c : ℕ} {ss ts : List (Store β)} (hs : Tiles a ss b) (ht : Tiles b ts c) :
    Tiles a (ss ++ ts) c := by
  induction ss generalizing a with
  | nil =>
      obtain rfl : a = b := hs
      exact ht
  | cons s ss ih => exact ⟨hs.1, ih hs.2⟩

lemma Tiles.split {a c : ℕ} {ss ts : List (Store β)} (h : Tiles a (ss ++ ts) c) :
    ∃ b, Tiles a ss b ∧ Tiles b ts c := by
  induction ss generalizing a with
  | nil => exact ⟨a, rfl, h⟩
  | cons s ss ih =>
      obtain ⟨b, hs, ht⟩ := ih h.2
      exact ⟨b, ⟨h.1, hs⟩, ht⟩

lemma Tiles.le {a b : ℕ} {ss : List (Store β)} (h : Tiles a ss b) : a ≤ b := by
  induction ss generalizing a with
  | nil => exact le_of_eq h
  | cons s ss ih =>
      have hle := ih h.2
      rw [Store.stop, h.1] at hle
      omega

lemma Tiles.bounds {a b : ℕ} {ss : List (Store β)} (h : Tiles a ss b) :
    ∀ s ∈ ss, a ≤ s.addr ∧ s.stop ≤ b := by
  induction ss generalizing a with
  | nil => exact fun s hs => absurd hs List.not_mem_nil
  | cons t ss ih =>
      intro s hs
      have hstop : t.stop = t.addr + t.cells.length := rfl
      rcases List.mem_cons.mp hs with rfl | hs
      · exact ⟨h.1.ge, h.2.le⟩
      · have hbounds := ih h.2 s hs
        have haddr := h.1
        omega

lemma Tiles.pairwise {a b : ℕ} {ss : List (Store β)} (h : Tiles a ss b) :
    ss.Pairwise Store.Apart := by
  induction ss generalizing a with
  | nil => exact List.Pairwise.nil
  | cons t ss ih => exact List.pairwise_cons.mpr ⟨fun s hs => .inl (h.2.bounds s hs).1, ih h.2⟩

/-- Two tilings of ranges that follow one another, in any order of the stores. -/
lemma Tiles.pairwise_perm {a b c : ℕ} {ss ts us : List (Store β)} (hs : Tiles a ss b)
    (ht : Tiles b ts c) (hperm : (ss ++ ts).Perm us) : us.Pairwise Store.Apart :=
  (hperm.pairwise_iff fun h => Store.Apart.symm h).mp (hs.append ht).pairwise

end Slice
