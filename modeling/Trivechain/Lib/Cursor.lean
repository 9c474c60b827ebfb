import Trivechain.Lib.Run

/-!
# Cursors over ascending keys

A cursor stands before a key or at the end, and moves forward one key at a time. It
*enumerates* a set of keys if after each seek it stands before the keys of the set from there
on, in ascending order. A loop over such a cursor ends, and visits these keys.

Two ascending sequences without a common key are merged into an ascending one.
-/

namespace Trivechain
open Std (TransOrd LawfulEqOrd)
open List
variable {K : Type}

section Order
variable [Ord K]

def before (a b : K) : Bool := compare a b == .lt

def Ascending (l : List K) : Prop := l.Pairwise fun a b => before a b = true

lemma Ascending.head_before {a b : K} {l : List K} (h : Ascending (a :: l)) (hb : b ∈ l) :
    before a b = true := rel_of_pairwise_cons h hb

variable [TransOrd K]

lemma before_trans {a b c : K} (ha : before a b) (hb : before b c) : before a c = true := by
  simp only [before, beq_iff_eq] at *
  exact Std.TransCmp.lt_trans ha hb

@[simp] lemma before_self (a : K) : before a a = false := by simp [before]

lemma before_of_not_before [LawfulEqOrd K] {a b : K} (h : before a b = false) (hn : a ≠ b) :
    before b a = true := by
  simp only [before, beq_eq_false_iff_ne, ne_eq, beq_iff_eq] at *
  cases ha : compare a b with
  | lt => exact absurd ha h
  | eq => exact absurd (Std.LawfulEqCmp.compare_eq_iff_eq.1 ha) hn
  | gt => exact Std.OrientedCmp.lt_of_gt ha

lemma Ascending.nodup {l : List K} (h : Ascending l) : l.Nodup := by
  refine List.Pairwise.imp ?_ h
  rintro a _ ha rfl
  simp at ha

lemma Ascending.mem_dropWhile {l : List K} (h : Ascending l) (k a : K) :
    a ∈ l.dropWhile (before · k) ↔ a ∈ l ∧ before a k = false := by
  induction l with
  | nil => simp
  | cons b l ih =>
    rw [dropWhile_cons]
    split_ifs with hb
    · rw [ih h.of_cons, mem_cons]
      constructor
      · exact fun ⟨ha, hk⟩ => ⟨.inr ha, hk⟩
      · rintro ⟨rfl | ha, hk⟩
        · simp [hb] at hk
        · exact ⟨ha, hk⟩
    · refine ⟨fun ha => ⟨ha, ?_⟩, And.left⟩
      rcases mem_cons.1 ha with rfl | ha
      · simpa using hb
      · -- a key below the bound would put the head below it as well
        by_contra hak
        exact hb (before_trans (h.head_before ha) (by simpa using hak))

lemma Ascending.merge [LawfulEqOrd K] {l1 l2 : List K} (h1 : Ascending l1)
    (h2 : Ascending l2) (hd : ∀ a ∈ l1, a ∉ l2) : Ascending (l1.merge l2 before) := by
  induction l1 generalizing l2 with
  | nil => simpa using h2
  | cons a l1 ih1 =>
    induction l2 with
    | nil => simpa using h1
    | cons b l2 ih2 =>
      have hn : a ≠ b := fun h => hd a (by simp) (by simp [h])
      rw [cons_merge_cons]
      split_ifs with ha
      · refine pairwise_cons.2 ⟨fun c hc => ?_, ih1 h1.of_cons h2 fun x hx => ?_⟩
        · rcases mem_merge.1 hc with hc | hc
          · exact h1.head_before hc
          · rcases mem_cons.1 hc with rfl | hc
            · exact ha
            · exact before_trans ha (h2.head_before hc)
        · exact hd x (by simp [hx])
      · have hb : before b a = true := before_of_not_before (by simpa using ha) hn
        refine pairwise_cons.2 ⟨fun c hc => ?_, ih2 h2.of_cons fun x hx hm => ?_⟩
        · rcases mem_merge.1 hc with hc | hc
          · rcases mem_cons.1 hc with rfl | hc
            · exact hb
            · exact before_trans hb (h1.head_before hc)
          · exact h2.head_before hc
        · exact hd x hx (by simp [hm])

end Order

/-- What an iterator offers: a test for the end, the current key, and moves. -/
structure Cursor (I K : Type) where
  valid : I → Bool
  getKey : I → K
  next : I → Run I
  seek : K → I → Run I
  seekToFirst : I → Run I

namespace Cursor
variable {I : Type}

/-- The positions of a loop that moves on while the cursor is valid. -/
inductive Visits (c : Cursor I K) : I → List I → Prop
  | done {it : I} (h : c.valid it = false) : Visits c it []
  | step {it it' : I} {its : List I} (h : c.valid it = true) (hnext : c.next it = .ok it')
      (hrest : Visits c it' its) : Visits c it (it :: its)

def seekFrom (c : Cursor I K) : Option K → I → Run I
  | some k, it => c.seek k it
  | none, it => c.seekToFirst it

/-- The cursor enumerates the keys that `Has` holds of: `At` says before which keys a position
stands. -/
structure Enumerates [Ord K] (c : Cursor I K) (Has : K → Prop) where
  At : I → List K → Prop
  ascending : ∀ {it l}, At it l → Ascending l
  valid : ∀ {it l}, At it l → (c.valid it = true ↔ l ≠ [])
  getKey : ∀ {it k l}, At it (k :: l) → c.getKey it = k
  next : ∀ {it k l}, At it (k :: l) → ∃ it', c.next it = .ok it' ∧ At it' l
  seekFrom : ∀ (from? : Option K) (it : I), ∃ it' l, c.seekFrom from? it = .ok it' ∧ At it' l ∧
    ∀ k, k ∈ l ↔ Has k ∧ from?.all (fun k0 => !before k k0) = true

lemma Enumerates.visits [Ord K] {c : Cursor I K} {Has : K → Prop} (h : c.Enumerates Has) {it : I}
    {l : List K} (ha : h.At it l) : ∃ its, c.Visits it its ∧ its.map c.getKey = l := by
  induction l generalizing it with
  | nil =>
    have hv : c.valid it = false := by simpa using (h.valid ha).not
    exact ⟨[], .done hv, rfl⟩
  | cons k l ih =>
    obtain ⟨it', hn, ha'⟩ := h.next ha
    obtain ⟨its, hi, hk⟩ := ih ha'
    exact ⟨it :: its, .step ((h.valid ha).2 (by simp)) hn hi, by
      rw [map_cons, h.getKey ha, hk]⟩

lemma Visits.valid_of_mem {c : Cursor I K} {it pos : I} {its : List I} (h : c.Visits it its)
    (hp : pos ∈ its) : c.valid pos = true := by
  induction h with
  | done => simp at hp
  | step hv _ _ ih =>
    rcases mem_cons.1 hp with rfl | hp
    · exact hv
    · exact ih hp

end Cursor
end Trivechain
