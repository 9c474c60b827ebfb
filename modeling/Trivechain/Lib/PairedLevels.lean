import Mathlib.Algebra.Order.Ring.Nat
import Mathlib.Logic.Function.Iterate
import Mathlib.Tactic.Ring

/-!
# Trees by levels

The nodes of a level are paired up to get the next one, and a last node without a partner is paired
with itself.
-/

namespace Trivechain.PairedLevels
variable {α : Type} (h : α → α → α)

def next : List α → List α
  | a :: b :: rest => h a b :: next rest
  | [a] => [h a a]
  | [] => []

def level (leaves : List α) (k : Nat) : List α := (next h)^[k] leaves

lemma length_next (l : List α) : (next h l).length = (l.length + 1) / 2 := by
  fun_induction next h l with
  | case1 a b rest ih =>
    simp only [List.length_cons, ih]
    omega
  | case2 | case3 => simp

/-- The node of the first level that has no other one. -/
def root (l : List α) : Option α := if 1 < l.length then root (next h l) else l.head?
termination_by l.length
decreasing_by
  rw [length_next]
  omega

variable {h} {a b : α} {l leaves : List α} {j k : Nat}

lemma next_pair (ha : l[2 * j]? = some a) (hb : l[2 * j + 1]? = some b) :
    (next h l)[j]? = some (h a b) := by
  fun_induction next h l generalizing j with
  | case1 x y rest ih =>
    cases j with
    | zero =>
      obtain ⟨rfl, rfl⟩ : x = a ∧ y = b := by simpa using And.intro ha hb
      rfl
    | succ j => exact ih ha hb
  | case2 x => simp at hb
  | case3 => simp at hb

lemma next_last (ha : l[2 * j]? = some a) (hj : l.length = 2 * j + 1) :
    (next h l)[j]? = some (h a a) := by
  fun_induction next h l generalizing j with
  | case1 x y rest ih =>
    cases j with
    | zero => simp at hj
    | succ j =>
      rw [List.length_cons, List.length_cons] at hj
      exact ih ha (by omega)
  | case2 x =>
    obtain rfl : j = 0 := by simpa using hj
    simp_all
  | case3 => simp at hj

lemma level_succ : level h leaves (k + 1) = next h (level h leaves k) :=
  Function.iterate_succ_apply' ..

lemma length_level (leaves : List α) (k : Nat) : leaves.length ≤ (level h leaves k).length * 2 ^ k ∧
      (level h leaves k).length * 2 ^ k < leaves.length + 2 ^ k := by
  induction k with
  | zero => simp [level]
  | succ k ih =>
    obtain ⟨w, hw⟩ : ∃ w, w = (level h leaves k).length := ⟨_, rfl⟩
    rw [level_succ, length_next, pow_succ', ← mul_assoc, mul_comm _ 2, ← hw]
    rw [← hw] at ih
    -- the level is even, or one node is paired with itself
    obtain he | he : 2 * ((w + 1) / 2) = w ∨ 2 * ((w + 1) / 2) = w + 1 := by omega
    · rw [he]
      omega
    · rw [he, Nat.add_one_mul]
      omega

lemma length_level_eq {w : Nat} (hl : leaves.length ≤ w * 2 ^ k)
    (ht : w * 2 ^ k < leaves.length + 2 ^ k) : (level h leaves k).length = w := by
  obtain ⟨hl', ht'⟩ := length_level (h := h) leaves k
  have h1 : (level h leaves k).length * 2 ^ k < (w + 1) * 2 ^ k := by
    rw [Nat.add_one_mul]
    omega
  have h2 : w * 2 ^ k < ((level h leaves k).length + 1) * 2 ^ k := by
    rw [Nat.add_one_mul]
    omega
  have := Nat.lt_of_mul_lt_mul_right h1
  have := Nat.lt_of_mul_lt_mul_right h2
  omega

lemma root_eq (hb : ∀ j < k, 1 < (level h leaves j).length)
    (hk : (level h leaves k).length = 1) : root h leaves = (level h leaves k)[0]? := by
  induction k generalizing leaves with
  | zero =>
    rw [root, if_neg (by simpa [level] using hk.le), ← List.head?_eq_getElem?]
    rfl
  | succ k ih =>
    rw [root, if_pos (show 1 < leaves.length from hb 0 k.succ_pos)]
    exact ih (fun j hj => hb (j + 1) (by omega)) hk

/-! ## Levels determine the leaves

As long as no two partners in a complete subtree are equal. -/

variable (h leaves) in
/-- The partners at the roots of complete subtrees differ. -/
def PairsDiffer : Prop :=
  ∀ k q, (q + 1) * 2 ^ k ≤ leaves.length → q % 2 = 1 →
    (level h leaves k)[q - 1]? ≠ (level h leaves k)[q]?

lemma next_inv {z : α} (hz : (next h l)[j]? = some z) : ∃ a b, z = h a b ∧ l[2 * j]? = some a ∧
    (l[2 * j + 1]? = some b ∨ l.length = 2 * j + 1 ∧ b = a) := by
  have hj := (List.getElem?_eq_some_iff.1 hz).1
  rw [length_next] at hj
  have ha : l[2 * j]? = some l[2 * j] := List.getElem?_eq_getElem (by omega)
  obtain hl | he : 2 * j + 1 < l.length ∨ l.length = 2 * j + 1 := by omega
  · have hb := List.getElem?_eq_getElem hl
    exact ⟨_, _, Option.some_inj.1 (hz.symm.trans (next_pair ha hb)), ha, .inl hb⟩
  · exact ⟨_, _, Option.some_inj.1 (hz.symm.trans (next_last ha he)), ha, .inr ⟨he, rfl⟩⟩

section Injective
variable (hinj : ∀ a b c d, h a b = h c d → a = c ∧ b = d)
include hinj

/-- Two levels with the same next one are equal, or the last node of one is doubled in the other. -/
lemma next_eq_next {l m : List α} (hq : next h l = next h m) (hle : l.length ≤ m.length) :
    l = m ∨ ∃ l' x, m = l' ++ [x, x] ∧ l'.length % 2 = 0 := by
  fun_induction next h l generalizing m with
  | case1 a b rest ih =>
    obtain _ | ⟨c, _ | ⟨d, rest'⟩⟩ := m
    · simp at hle
    · simp at hle
    · obtain ⟨hh, ht⟩ := List.cons.inj hq
      obtain ⟨rfl, rfl⟩ := hinj _ _ _ _ hh
      obtain rfl | ⟨l', x, rfl, he⟩ := ih ht (by simpa using hle)
      · exact .inl rfl
      · exact .inr ⟨a :: b :: l', x, rfl, by simp only [List.length_cons]; omega⟩
  | case2 a =>
    obtain _ | ⟨c, _ | ⟨d, _ | ⟨e, rest'⟩⟩⟩ := m
    · simp at hle
    · obtain ⟨rfl, -⟩ := hinj _ _ _ _ (List.cons.inj hq).1
      exact .inl rfl
    · obtain ⟨rfl, rfl⟩ := hinj _ _ _ _ (List.cons.inj hq).1
      exact .inr ⟨[], a, rfl, rfl⟩
    · have hl := congrArg List.length hq
      simp only [length_next, List.length_cons, List.length_nil] at hl
      omega
  | case3 =>
    have hl := congrArg List.length hq
    rw [length_next, List.length_nil] at hl
    exact .inl (List.eq_nil_of_length_eq_zero (by omega)).symm

/-- A complete subtree is not equal to the incomplete one at the right edge: it would have equal
partners at the lowest level where the edge has an odd node. -/
lemma PairsDiffer.ne_edge (hd : PairsDiffer h leaves) {q w : Nat}
    (hq : (q + 1) * 2 ^ k ≤ leaves.length) (hl : (level h leaves k).length = w + 1)
    (hw : leaves.length < (w + 1) * 2 ^ k) : (level h leaves k)[q]? ≠ (level h leaves k)[w]? := by
  induction k generalizing q w with
  | zero =>
    simp only [level, Function.iterate_zero, id_eq] at hl
    omega
  | succ k ih =>
    intro he
    obtain ⟨z, hw'⟩ : ∃ z, (level h leaves (k + 1))[w]? = some z :=
      ⟨_, List.getElem?_eq_getElem (by omega)⟩
    have hp : ∀ n, (n + 1) * 2 ^ (k + 1) = (2 * n + 1 + 1) * 2 ^ k := fun n => by ring
    rw [hp] at hq hw
    have hn := hd k (2 * q + 1) hq (by omega)
    rw [hw', level_succ] at he
    rw [level_succ] at hw'
    obtain ⟨a, b, hz, ha, hb⟩ := next_inv he
    obtain ⟨a', b', hz', ha', hb'⟩ := next_inv hw'
    obtain ⟨rfl, rfl⟩ := hinj _ _ _ _ (hz.symm.trans hz')
    rw [level_succ, length_next] at hl
    have hr : (level h leaves k)[2 * q + 1]? = some b := by
      refine hb.resolve_right fun hs => ?_
      have hle := hq.trans (length_level (h := h) leaves k).1
      have hps := Nat.two_pow_pos k
      rw [hs.1, Nat.add_one_mul (2 * q + 1)] at hle
      omega
    obtain hb' | ⟨-, rfl⟩ := hb'
    · refine ih (q := 2 * q + 1) (w := 2 * w + 1) hq ?_ hw (hr.trans hb'.symm)
      have := (List.getElem?_eq_some_iff.1 hb').1
      omega
    · exact hn (ha.trans hr.symm)

lemma PairsDiffer.not_doubled (hd : PairsDiffer h leaves) {l : List α} {x : α}
    (hl : l.length % 2 = 0) : level h leaves k ≠ l ++ [x, x] := by
  intro he
  have hn : (level h leaves k).length = l.length + 1 + 1 := by simp [he]
  have hs : (level h leaves k)[l.length]? = (level h leaves k)[l.length + 1]? := by simp [he]
  obtain hle | ht := le_or_gt ((l.length + 1 + 1) * 2 ^ k) leaves.length
  · exact hd k (l.length + 1) hle (by omega) hs
  · refine hd.ne_edge hinj ?_ hn ht hs
    have hb := (length_level (h := h) leaves k).2
    rw [hn, Nat.add_one_mul] at hb
    omega

lemma PairsDiffer.leaves_eq {leaves' : List α} (hd : PairsDiffer h leaves)
    (hd' : PairsDiffer h leaves') (hq : level h leaves k = level h leaves' k) :
    leaves = leaves' := by
  induction k with
  | zero => exact hq
  | succ k ih =>
    rw [level_succ, level_succ] at hq
    obtain hl | hl := Nat.le_total (level h leaves k).length (level h leaves' k).length
    · obtain hs | ⟨l, x, hb, he⟩ := next_eq_next hinj hq hl
      · exact ih hs
      · exact absurd hb (hd'.not_doubled hinj he)
    · obtain hs | ⟨l, x, hb, he⟩ := next_eq_next hinj hq.symm hl
      · exact ih hs.symm
      · exact absurd hb (hd.not_doubled hinj he)

lemma left_eq {leaves' : List α} {j k d : Nat}
    (he : (level h leaves (j + d))[0]? = (level h leaves' (k + d))[0]?)
    (hn : leaves ≠ []) : (level h leaves j)[0]? = (level h leaves' k)[0]? := by
  induction d with
  | zero => exact he
  | succ d ih =>
    refine ih ?_
    have hp : 0 < (level h leaves (j + d + 1)).length := by
      by_contra hr
      have hl := (length_level (h := h) leaves (j + d + 1)).1
      rw [Nat.eq_zero_of_not_pos hr, Nat.zero_mul] at hl
      exact hn (List.eq_nil_of_length_eq_zero (Nat.le_zero.1 hl))
    obtain ⟨z, hz⟩ : ∃ z, (level h leaves (j + d + 1))[0]? = some z :=
      ⟨_, List.getElem?_eq_getElem hp⟩
    have hz' := he.symm.trans hz
    rw [← Nat.add_assoc, level_succ] at hz'
    rw [level_succ] at hz
    obtain ⟨a, b, rfl, ha, -⟩ := next_inv hz
    obtain ⟨a', b', hb, ha', -⟩ := next_inv hz'
    rw [ha, ha', (hinj _ _ _ _ hb).1]

end Injective
end Trivechain.PairedLevels
