import Trivechain.Lib.PairedLevels
import Trivechain.Primitives.Transaction

/-!
# Merkle roots and branches

`MerkleComputation` keeps the finished subtrees like the digits of a binary counter of the leaves:
`inner[level]` is in use if that bit of `count` is set. A final sweep over the right edge of the
tree combines odd nodes with themselves.
-/

namespace Trivechain.Consensus
open PairedLevels Nat List Option Bool

-- `CHash256` of two hashes
variable (hash : Uint256 → Uint256 → Uint256)

structure MerkleState where
  mutated : Bool := false
  count : Nat := 0
  inner : Nat → Uint256 := fun _ => 0
  matchlevel : Int := -1
  branch : List Uint256 := []

structure Cursor where
  level : Nat
  h : Uint256
  matchh : Bool
  mutated : Bool
  branch : List Uint256

/-- `h` is combined with the subtree to its left. -/
def MerkleState.combine (s : MerkleState) (c : Cursor) : Cursor where
  level := c.level + 1
  h := hash (s.inner c.level) c.h
  matchh := c.matchh || s.matchlevel = c.level
  mutated := c.mutated || s.inner c.level = c.h
  branch := if c.matchh then c.branch ++ [s.inner c.level]
    else if s.matchlevel = c.level then c.branch ++ [c.h] else c.branch

/-- `while (!(count & (1 << level)))`. There are at most 32 levels. -/
def MerkleState.climb (s : MerkleState) (count : Nat) : Nat → Cursor → Cursor
  | 0, c => c
  | fuel + 1, c =>
    if count.testBit c.level then c else s.climb count fuel (s.combine hash c)

def MerkleState.addLeaf (branchpos : Nat) (s : MerkleState) (leaf : Uint256) : MerkleState :=
  let c := s.climb hash (s.count + 1) 32 ⟨0, leaf, s.count = branchpos, s.mutated, s.branch⟩
  { mutated := c.mutated
    count := s.count + 1
    inner := Function.update s.inner c.level c.h
    matchlevel := if c.matchh then c.level else s.matchlevel
    branch := c.branch }

def Cursor.double (c : Cursor) : Cursor :=
  { c with
    level := c.level + 1
    h := hash c.h c.h
    branch := if c.matchh then c.branch ++ [c.h] else c.branch }

/-- The final sweep. What `combine` does to the flag is not used. -/
def MerkleState.sweep (s : MerkleState) : Nat → Nat → Cursor → Cursor
  | 0, _, c => c
  | fuel + 1, count, c =>
    if count = 2 ^ c.level then c
    else
      let count := count + 2 ^ c.level
      s.sweep fuel count (s.climb hash count 32 (c.double hash))

def lowestBit (count : Nat) : Nat → Nat → Nat
  | 0, level => level
  | fuel + 1, level => if count.testBit level then level else lowestBit count fuel (level + 1)

/-- The root, the flag and the branch. Without a branch the source does not track the position. -/
def merkleComputation (leaves : List Uint256) (branchpos : Nat) : Uint256 × Bool × List Uint256 :=
  if leaves.isEmpty then (0, false, [])
  else
    let s := leaves.foldl (MerkleState.addLeaf hash branchpos) {}
    let level := lowestBit s.count 32 0
    let c := s.sweep hash 32 s.count
      ⟨level, s.inner level, s.matchlevel = level, s.mutated, s.branch⟩
    (c.h, s.mutated, c.branch)

def computeMerkleRoot (leaves : List Uint256) : Uint256 × Bool :=
  let (root, mutated, _) := merkleComputation hash leaves (2 ^ 32 - 1)
  (root, mutated)

def computeMerkleBranch (leaves : List Uint256) (position : Nat) : List Uint256 :=
  (merkleComputation hash leaves position).2.2

def computeMerkleRootFromBranch (leaf : Uint256) (vMerkleBranch : List Uint256) (nIndex : Nat) :
    Uint256 :=
  (vMerkleBranch.foldl (fun s x =>
    (if s.2 % 2 = 1 then hash x s.1 else hash s.1 x, s.2 / 2)) (leaf, nIndex)).1

variable {hash} {leaves : List Uint256} {p : Nat} {leaf : Uint256}

lemma computeMerkleRootFromBranch_concat (branch : List Uint256) (x : Uint256) :
    computeMerkleRootFromBranch hash leaf (branch ++ [x]) p =
      if p / 2 ^ branch.length % 2 = 1 then hash x (computeMerkleRootFromBranch hash leaf branch p)
      else hash (computeMerkleRootFromBranch hash leaf branch p) x := by
  have hs : ∀ (branch : List Uint256) (s : Uint256 × Nat), (branch.foldl (fun s x =>
      (if s.2 % 2 = 1 then hash x s.1 else hash s.1 x, s.2 / 2)) s).2 =
        s.2 / 2 ^ branch.length := by
    intro branch
    induction branch with
    | nil => simp
    | cons x branch ih =>
      intro s
      rw [foldl_cons, ih, length_cons, pow_succ', Nat.div_div_eq_div_mul]
  rw [computeMerkleRootFromBranch, foldl_append, foldl_cons, foldl_nil, hs]
  rfl

variable (hash leaves p leaf) in
/-- The branch leads from the leaf to the node above it at this height. -/
def Path (k : Nat) (branch : List Uint256) : Prop :=
  branch.length = k ∧
    (level hash leaves k)[p / 2 ^ k]? = some (computeMerkleRootFromBranch hash leaf branch p)

variable {k q : Nat} {x y : Uint256} {branch : List Uint256}

lemma node_pair (hq : q % 2 = 1) (hx : (level hash leaves k)[q - 1]? = some x)
    (hy : (level hash leaves k)[q]? = some y) :
    (level hash leaves (k + 1))[q / 2]? = some (hash x y) := by
  rw [level_succ]
  exact next_pair (by rwa [show 2 * (q / 2) = q - 1 by omega])
    (by rwa [show 2 * (q / 2) + 1 = q by omega])

lemma node_last (hq : q % 2 = 0) (hx : (level hash leaves k)[q]? = some x)
    (hl : (level hash leaves k).length = q + 1) :
    (level hash leaves (k + 1))[q / 2]? = some (hash x x) := by
  rw [level_succ]
  exact next_last (by rwa [show 2 * (q / 2) = q by omega]) (by omega)

lemma div_pow_succ (p k : Nat) : p / 2 ^ (k + 1) = p / 2 ^ k / 2 := by
  rw [pow_succ, Nat.div_div_eq_div_mul]

lemma div_pow_congr {m n : Nat} (h : p / 2 ^ k = n / 2 ^ k) (hk : k ≤ m) :
    p / 2 ^ m = n / 2 ^ m := by
  obtain ⟨d, rfl⟩ := Nat.exists_eq_add_of_le hk
  rw [pow_add, ← Nat.div_div_eq_div_mul, h, Nat.div_div_eq_div_mul]

lemma Path.concat (h : Path hash leaves p leaf k branch) (hq : p / 2 ^ k = q)
    (hy : (level hash leaves k)[q]? = some y)
    (hz : (level hash leaves (k + 1))[q / 2]? = some (if q % 2 = 1 then hash x y else hash y x)) :
    Path hash leaves p leaf (k + 1) (branch ++ [x]) := by
  have he := h.2
  rw [hq, hy, some_inj] at he
  refine ⟨by simp [h.1], ?_⟩
  rw [computeMerkleRootFromBranch_concat, h.1, div_pow_succ, hq, hz, he]

variable (hash leaves p leaf) in
/-- What is known at a level: the node, whether the position is below it, and what an unset flag
means. -/
structure Reaches (s : MerkleState) (D : Nat → Prop) (q : Nat) (c : Cursor) : Prop where
  node : (level hash leaves c.level)[q]? = some c.h
  flag : c.mutated = false → D c.level
  matched : p < leaves.length → (c.matchh = true ↔ p / 2 ^ c.level = q)
  path : p < leaves.length → c.matchh = true → Path hash leaves p leaf c.level c.branch
  kept : c.matchh = false → c.branch = s.branch

variable (hash leaves p leaf) in
structure Finished (s : MerkleState) (k q : Nat) : Prop where
  node : (level hash leaves k)[q]? = some (s.inner k)
  matched : p < leaves.length → (s.matchlevel = k ↔ p / 2 ^ k = q)
  path : p < leaves.length → s.matchlevel = k → Path hash leaves p leaf k s.branch

variable {s : MerkleState} {D : Nat → Prop} {c : Cursor} {count : Nat}

lemma Reaches.combine (h : Reaches hash leaves p leaf s D q c) (hq : q % 2 = 1)
    (hf : Finished hash leaves p leaf s c.level (q - 1))
    (hD : D c.level → s.inner c.level ≠ c.h → D (c.level + 1)) :
    Reaches hash leaves p leaf s D (q / 2) (s.combine hash c) := by
  have hn := node_pair hq hf.node h.node
  refine ⟨hn, fun hfl => ?_, fun hp => ?_, fun hp ht => ?_, fun ho => ?_⟩
  · simp only [MerkleState.combine, or_eq_false_iff, decide_eq_false_iff_not] at hfl
    exact hD (h.flag hfl.1) hfl.2
  · have hm := h.matched hp
    have hm' := hf.matched hp
    simp only [MerkleState.combine, or_eq_true, decide_eq_true_eq, hm, hm', div_pow_succ]
    omega
  · cases hc : c.matchh with
    | true =>
      simp only [MerkleState.combine, hc, if_true]
      exact (h.path hp hc).concat ((h.matched hp).1 hc) h.node (by rwa [if_pos hq])
    | false =>
      have hl : s.matchlevel = c.level := by simpa [MerkleState.combine, hc] using ht
      simp only [MerkleState.combine, hc, hl, false_eq_true, if_false, if_true, h.kept hc]
      exact (hf.path hp hl).concat ((hf.matched hp).1 hl) hf.node
        (by rwa [if_neg (by omega), show (q - 1) / 2 = q / 2 by omega])
  · simp only [MerkleState.combine, or_eq_false_iff, decide_eq_false_iff_not] at ho ⊢
    rw [if_neg (by simp [ho.1]), if_neg ho.2, h.kept ho.1]

lemma Reaches.double (h : Reaches hash leaves p leaf s D q c) (hq : q % 2 = 0)
    (hl : (level hash leaves c.level).length = q + 1) (hD : D (c.level + 1)) :
    Reaches hash leaves p leaf s D (q / 2) (c.double hash) := by
  have hn := node_last hq h.node hl
  refine ⟨hn, fun _ => hD, fun hp => ?_, fun hp hm => ?_, fun ho => ?_⟩
  · -- the position is below a node of the level, and this is its last one
    have hle : p / 2 ^ c.level < q + 1 := by
      rw [← hl]
      exact Nat.div_lt_of_lt_mul (by
        rw [mul_comm]
        exact hp.trans_le (length_level leaves c.level).1)
    simp only [Cursor.double, h.matched hp, div_pow_succ]
    omega
  · simp only [Cursor.double, if_pos (show c.matchh = true from hm)]
    exact (h.path hp hm).concat ((h.matched hp).1 hm) h.node (by rwa [if_neg (by omega)])
  · have ho : c.matchh = false := ho
    simp only [Cursor.double, ho, false_eq_true, if_false, h.kept ho]

lemma testBit_iff {n : Nat} (h : n / 2 ^ k = q) : n.testBit k = true ↔ q % 2 = 1 := by
  rw [testBit_eq_decide_div_mod_eq, h, decide_eq_true_eq]

/-- A loop over levels ends at the lowest bit of `count` from its start on. -/
lemma Reaches.climb (fuel : Nat) (h : Reaches hash leaves p leaf s D q c)
    (hc : (q + 1) * 2 ^ c.level = count) (hf : count < 2 ^ (c.level + fuel))
    (hl : ∀ k q, c.level ≤ k → (q + 1) * 2 ^ k = count → q % 2 = 1 →
      Finished hash leaves p leaf s k (q - 1))
    (hD : ∀ k q x, c.level ≤ k → (q + 1) * 2 ^ k = count → q % 2 = 1 →
      (level hash leaves k)[q]? = some x → D k → s.inner k ≠ x → D (k + 1)) :
    ∃ q', Reaches hash leaves p leaf s D q' (s.climb hash count fuel c) ∧
      (q' + 1) * 2 ^ (s.climb hash count fuel c).level = count ∧ q' % 2 = 0 ∧
      c.level ≤ (s.climb hash count fuel c).level := by
  induction fuel generalizing c q with
  | zero =>
    have hle : 2 ^ c.level ≤ (q + 1) * 2 ^ c.level := Nat.le_mul_of_pos_left _ q.succ_pos
    simp only [Nat.add_zero] at hf
    omega
  | succ fuel ih =>
    have hd : count / 2 ^ c.level = q + 1 := by
      rw [← hc, Nat.mul_div_cancel _ (Nat.two_pow_pos _)]
    rw [MerkleState.climb]
    split_ifs with hb <;> rw [testBit_iff hd] at hb
    · exact ⟨q, h, hc, by omega, le_rfl⟩
    · have hq : q % 2 = 1 := by omega
      have hs := h.combine hq (hl _ _ le_rfl hc hq) (hD _ _ _ le_rfl hc hq h.node)
      have hn' : (q / 2 + 1) * 2 ^ (c.level + 1) = count := by
        rw [← hc, pow_succ', ← mul_assoc, show (q / 2 + 1) * 2 = q + 1 by omega]
      obtain ⟨q', hr, hc', he, hle⟩ := ih hs hn'
        (by rwa [show (s.combine hash c).level + fuel = c.level + (fuel + 1) from
          Nat.add_right_comm ..])
        (fun k q hk => hl k q (Nat.le_of_succ_le hk))
        (fun k q x hk => hD k q x (Nat.le_of_succ_le hk))
      exact ⟨q', hr, hc', he, Nat.le_of_succ_le hle⟩

variable (hash leaves p leaf) in
/-- After some leaves: the subtrees that are finished, and what an unset flag means. -/
structure Counted (s : MerkleState) : Prop where
  finished : ∀ k, s.count / 2 ^ k % 2 = 1 →
    Finished hash leaves p leaf s k (s.count / 2 ^ k - 1)
  matched : ∀ k : Nat, p < leaves.length → s.matchlevel = k → s.count / 2 ^ k % 2 = 1
  unmatched : p < leaves.length → s.count ≤ p → s.branch = []
  flag : s.mutated = false → ∀ k q, (q + 1) * 2 ^ k ≤ s.count → q % 2 = 1 →
    (level hash leaves k)[q - 1]? ≠ (level hash leaves k)[q]?

section Carry
variable {count L : Nat} (hq : q % 2 = 0) (hL : (q + 1) * 2 ^ L = count + 1)
include hL

lemma count_div_pow : count / 2 ^ L = q := by
  have hp := Nat.two_pow_pos L
  rw [Nat.add_one_mul] at hL
  exact Nat.div_eq_of_lt_le (by omega) (by rw [Nat.add_one_mul]; omega)

lemma succ_div_pow_of_lt (hk : k < L) :
    (count + 1) / 2 ^ k % 2 = 0 ∧ count / 2 ^ k = (count + 1) / 2 ^ k - 1 := by
  obtain ⟨d, rfl⟩ := Nat.exists_eq_add_of_lt hk
  have hp : (q + 1) * 2 ^ (k + d + 1) = (q + 1) * 2 ^ d * 2 * 2 ^ k := by ring
  have hd : (count + 1) / 2 ^ k = (q + 1) * 2 ^ d * 2 := by
    rw [← hL, hp, Nat.mul_div_cancel _ (Nat.two_pow_pos _)]
  have hs : 0 < (q + 1) * 2 ^ d := Nat.mul_pos q.succ_pos (Nat.two_pow_pos _)
  refine ⟨by omega, ?_⟩
  rw [hd]
  exact count_div_pow (L := k) (q := (q + 1) * 2 ^ d * 2 - 1)
    (by rw [← hL, hp, Nat.sub_add_cancel (by omega)])
include hq

lemma succ_div_pow_of_gt (hk : L < k) : (count + 1) / 2 ^ k = count / 2 ^ k := by
  obtain ⟨d, rfl⟩ := Nat.exists_eq_add_of_lt hk
  rw [show L + d + 1 = L + (d + 1) from rfl, pow_add, ← Nat.div_div_eq_div_mul,
    ← Nat.div_div_eq_div_mul, count_div_pow hL, ← hL, Nat.mul_div_cancel _ (Nat.two_pow_pos _),
    pow_succ', ← Nat.div_div_eq_div_mul, ← Nat.div_div_eq_div_mul,
    show (q + 1) / 2 = q / 2 by omega]

end Carry

/-- The levels at which the last leaf completes a pair have two different nodes. -/
def Differ (hash : Uint256 → Uint256 → Uint256) (leaves : List Uint256) (count K : Nat) : Prop :=
  ∀ k < K, ∀ q, (q + 1) * 2 ^ k = count → q % 2 = 1 →
    (level hash leaves k)[q - 1]? ≠ (level hash leaves k)[q]?

lemma Counted.climb (h : Counted hash leaves p leaf s) (hf : p < leaves.length → leaves[p]? = some leaf)
    (hx : leaves[s.count]? = some x) (hc : s.count + 1 < 2 ^ 32) :
    ∃ q c, c = s.climb hash (s.count + 1) 32 ⟨0, x, s.count = p, s.mutated, s.branch⟩ ∧
      Reaches hash leaves p leaf s
        (fun K => s.mutated = false ∧ Differ hash leaves (s.count + 1) K) q c ∧
      (q + 1) * 2 ^ c.level = s.count + 1 ∧ q % 2 = 0 := by
  have hl : ∀ k q, (q + 1) * 2 ^ k = s.count + 1 → q % 2 = 1 →
      Finished hash leaves p leaf s k (q - 1) := by
    intro k q hq ho
    have hv := count_div_pow hq
    exact hv ▸ h.finished k (hv ▸ ho)
  have hs : Reaches hash leaves p leaf s
      (fun K => s.mutated = false ∧ Differ hash leaves (s.count + 1) K) s.count
      ⟨0, x, s.count = p, s.mutated, s.branch⟩ := by
    refine ⟨hx, fun hm => ⟨hm, fun k hk => absurd hk k.not_lt_zero⟩, fun _ => ?_,
      fun hp hm => ?_, fun _ => rfl⟩
    · simp [eq_comm]
    · obtain rfl : s.count = p := by simpa using hm
      rw [h.unmatched hp le_rfl]
      exact ⟨rfl, by simpa [level, computeMerkleRootFromBranch] using hf hp⟩
  obtain ⟨q, hr, hq, he, -⟩ := hs.climb 32 (by simp) (by simpa using hc)
    (fun k q _ => hl k q) (by
      rintro k q y - hq ho hy ⟨hm, hd⟩ hn
      refine ⟨hm, fun k' hk' q' hq' ho' => ?_⟩
      obtain ht | rfl := Nat.lt_succ_iff_lt_or_eq.1 hk'
      · exact hd k' ht q' hq' ho'
      · obtain rfl : q' = q :=
          Nat.succ_injective (Nat.eq_of_mul_eq_mul_right (Nat.two_pow_pos _) (hq'.trans hq.symm))
        rw [(hl k' q' hq ho).node, hy]
        simpa using hn)
  exact ⟨q, _, rfl, hr, hq, he⟩

/-- What a leaf leaves behind if its loop ends with `c`. -/
@[simp] def MerkleState.store (s : MerkleState) (c : Cursor) : MerkleState :=
  ⟨c.mutated, s.count + 1, Function.update s.inner c.level c.h,
    if c.matchh then c.level else s.matchlevel, c.branch⟩

section Leaf
variable (h : Counted hash leaves p leaf s) (hr : Reaches hash leaves p leaf s
    (fun K => s.mutated = false ∧ Differ hash leaves (s.count + 1) K) q c)
  (hq : (q + 1) * 2 ^ c.level = s.count + 1) (he : q % 2 = 0)
include h hr hq he

lemma level_lt_matchlevel (hp : p < leaves.length) (hm : c.matchh = false)
    (hk : s.matchlevel = k) : c.level < k := by
  have hb := h.matched k hp hk
  obtain hl | rfl | hg := Nat.lt_trichotomy k c.level
  · have hpk := ((h.finished k hb).matched hp).1 hk
    have hh : p / 2 ^ (k + 1) = s.count / 2 ^ (k + 1) := by
      rw [div_pow_succ, div_pow_succ, hpk]
      generalize s.count / 2 ^ k = n at hb ⊢
      omega
    rw [(hr.matched hp).2 ((div_pow_congr hh hl).trans (count_div_pow hq))] at hm
    cases hm
  · rw [count_div_pow hq] at hb
    omega
  · exact hg

lemma finished_store (hk : (s.count + 1) / 2 ^ k % 2 = 1) :
    Finished hash leaves p leaf (s.store c) k ((s.count + 1) / 2 ^ k - 1) := by
  have hn := level_lt_matchlevel h hr hq he (k := k)
  obtain ht | rfl | hg := Nat.lt_trichotomy k c.level
  · have := (succ_div_pow_of_lt hq ht).1
    omega
  · rw [← hq, Nat.mul_div_cancel _ (Nat.two_pow_pos _), Nat.add_sub_cancel]
    refine ⟨by simpa using hr.node, fun hp => ?_, fun hp hl => ?_⟩
    · cases hm : c.matchh with
      | true => simpa [hm] using hr.matched hp
      | false =>
        have hne := mt (hr.matched hp).2 (by simp [hm])
        refine iff_of_false (fun hl => absurd (hn hp hm ?_) (lt_irrefl _)) hne
        simpa [hm] using hl
    · cases hm : c.matchh with
      | true => exact hr.path hp hm
      | false =>
        exact absurd (hn hp hm (by simpa [hm] using hl)) (lt_irrefl _)
  · rw [succ_div_pow_of_gt he hq hg] at hk ⊢
    obtain ⟨hd, hmt, hpt⟩ := h.finished k hk
    refine ⟨by simpa [hg.ne'] using hd, fun hp => ?_, fun hp hl => ?_⟩
    · cases hm : c.matchh with
      | true =>
        have hpk := div_pow_congr (((hr.matched hp).1 hm).trans (count_div_pow hq).symm) hg.le
        exact iff_of_false (by simpa [hm] using hg.ne) (by omega)
      | false => simpa [hm] using hmt hp
    · cases hm : c.matchh with
      | true => exact absurd (by simpa [hm] using hl) hg.ne
      | false =>
        rw [MerkleState.store, hr.kept hm]
        exact hpt hp (by simpa [hm] using hl)

lemma Counted.store : Counted hash leaves p leaf (s.store c) := by
  have hv : (s.count + 1) / 2 ^ c.level = q + 1 := by
    rw [← hq, Nat.mul_div_cancel _ (Nat.two_pow_pos _)]
  refine ⟨fun k => finished_store h hr hq he, fun k hp hk => ?_, fun hp hle => ?_,
    fun hm k q' hq' ho => ?_⟩
  · dsimp only [MerkleState.store] at hk ⊢
    cases hm : c.matchh with
    | true =>
      obtain rfl : c.level = k := by simpa [hm] using hk
      omega
    | false =>
      have hl : s.matchlevel = k := by simpa [hm] using hk
      rw [succ_div_pow_of_gt he hq (level_lt_matchlevel h hr hq he hp hm hl)]
      exact h.matched k hp hl
  · dsimp only [MerkleState.store] at hle ⊢
    have hm : c.matchh = false := by
      rw [← not_eq_true, hr.matched hp]
      intro hpq
      have ht := Nat.lt_mul_of_div_lt (show p / 2 ^ c.level < q + 1 by omega) (Nat.two_pow_pos _)
      omega
    rw [hr.kept hm]
    exact h.unmatched hp (by omega)
  · obtain ⟨hu, hd⟩ := hr.flag hm
    obtain ht | heq := (show _ ≤ s.count + 1 from hq').lt_or_eq
    · exact h.flag hu k q' (Nat.le_of_lt_succ ht) ho
    · refine hd k (Nat.lt_of_not_le fun hle => ?_) q' heq ho
      -- otherwise the bit at which the loop stops would not be set
      obtain ⟨d, rfl⟩ := Nat.exists_eq_add_of_le hle
      have hpr : (q' + 1) * 2 ^ d = q + 1 :=
        Nat.eq_of_mul_eq_mul_right (Nat.two_pow_pos c.level) (by rw [hq, ← heq]; ring)
      obtain ⟨r, hr'⟩ : 2 ∣ (q' + 1) * 2 ^ d := Dvd.dvd.mul_right (by omega) _
      omega

end Leaf

lemma Counted.addLeaf (h : Counted hash leaves p leaf s)
    (hl : p < leaves.length → leaves[p]? = some leaf)
    (hx : leaves[s.count]? = some x) (hn : s.count + 1 < 2 ^ 32) :
    Counted hash leaves p leaf (s.addLeaf hash p x) := by
  obtain ⟨q, c, hc, hr, hq, he⟩ := h.climb hl hx hn
  rw [show s.addLeaf hash p x = s.store c by rw [hc]; rfl]
  exact h.store hr hq he

lemma counted_leaves (hl : p < leaves.length → leaves[p]? = some leaf)
    (hln : leaves.length < 2 ^ 31) :
    Counted hash leaves p leaf (leaves.foldl (MerkleState.addLeaf hash p) {}) ∧
      (leaves.foldl (MerkleState.addLeaf hash p) {}).count = leaves.length := by
  suffices hr : ∀ n ≤ leaves.length,
      Counted hash leaves p leaf ((leaves.take n).foldl (MerkleState.addLeaf hash p) {}) ∧
        ((leaves.take n).foldl (MerkleState.addLeaf hash p) {}).count = n by
    simpa using hr leaves.length le_rfl
  intro n hn
  induction n with
  | zero =>
    refine ⟨⟨fun k hk => ?_, fun k _ hk => ?_, fun _ _ => rfl, fun _ k q hq => ?_⟩, rfl⟩
    · simp at hk
    · cases hk
    · have := Nat.mul_pos q.succ_pos (Nat.two_pow_pos k)
      exact absurd hq (not_le.2 this)
  | succ n ih =>
    obtain ⟨h, hc⟩ := ih (by omega)
    rw [take_add_one, getElem?_eq_getElem (by omega), toList_some, foldl_append]
    refine ⟨h.addLeaf hl ?_ (by omega), ?_⟩
    · rw [hc]
      exact getElem?_eq_getElem (by omega)
    · simp [MerkleState.addLeaf, hc]

lemma lowestBit_spec (fuel level : Nat) (hp : 0 < count)
    (hf : count < 2 ^ (level + fuel)) (hl : 2 ^ level ∣ count) :
    ∃ q, (q + 1) * 2 ^ lowestBit count fuel level = count ∧ q % 2 = 0 := by
  induction fuel generalizing level with
  | zero => exact absurd (le_of_dvd hp hl) (not_le.2 hf)
  | succ fuel ih =>
    obtain ⟨m, hm⟩ := hl
    have hd : count / 2 ^ level = m := by rw [hm, Nat.mul_div_cancel_left _ (Nat.two_pow_pos _)]
    rw [lowestBit]
    split_ifs with hb <;> rw [testBit_iff hd] at hb
    · exact ⟨m - 1, by rw [Nat.sub_add_cancel (by omega), hm, mul_comm], by omega⟩
    · refine ih (level + 1) (by rwa [add_right_comm]) ⟨m / 2, ?_⟩
      rw [hm, pow_succ, mul_assoc, show 2 * (m / 2) = m by omega]

/-- What the sweep starts with at a level, and ends with at the top. -/
structure Edge (hash : Uint256 → Uint256 → Uint256) (leaves : List Uint256) (p : Nat)
    (leaf : Uint256) (s : MerkleState) (count q : Nat) (c : Cursor) : Prop where
  reaches : Reaches hash leaves p leaf s (fun _ => True) q c
  count_eq : (q + 1) * 2 ^ c.level = count
  even : q % 2 = 0
  le : leaves.length ≤ count
  lt : count < leaves.length + 2 ^ c.level
  low : q = 0 → 2 ^ c.level < 2 * leaves.length

lemma Edge.length (h : Edge hash leaves p leaf s count q c) :
    (level hash leaves c.level).length = q + 1 :=
  length_level_eq (h.count_eq ▸ h.le) (h.count_eq ▸ h.lt)

lemma Edge.step (h : Edge hash leaves p leaf s count q c)
    (hs : Counted hash leaves p leaf s) (hc : s.count = leaves.length)
    (hln : leaves.length < 2 ^ 31) (hn : count ≠ 2 ^ c.level) :
    ∃ q' c', c' = s.climb hash (count + 2 ^ c.level) 32 (c.double hash) ∧ c.level < c'.level ∧
      Edge hash leaves p leaf s (count + 2 ^ c.level) q' c' := by
  have hq : 2 ≤ q := by
    by_contra ht
    have h0 : q = 0 := by
      have := h.even
      omega
    exact hn (by rw [← h.count_eq, h0, Nat.zero_add, Nat.one_mul])
  have hcq := h.count_eq
  have hle := h.le
  have ht := h.lt
  have he := h.even
  have hp : 2 ^ (c.level + 1) = 2 * 2 ^ c.level := Nat.pow_succ'
  have hd : (q / 2 + 1) * 2 ^ (c.level + 1) = count + 2 ^ c.level := by
    rw [hp, ← mul_assoc, show (q / 2 + 1) * 2 = q + 1 + 1 by omega, Nat.add_one_mul, hcq]
  have hml : 2 * 2 ^ c.level ≤ q * 2 ^ c.level := Nat.mul_le_mul_right _ hq
  rw [Nat.add_one_mul] at hcq
  have hf : ∀ k r, c.level + 1 ≤ k → (r + 1) * 2 ^ k = count + 2 ^ c.level → r % 2 = 1 →
      Finished hash leaves p leaf s k (r - 1) := by
    intro k r hk hr ho
    have hm := Nat.pow_le_pow_right Nat.two_pos hk
    have hv : s.count / 2 ^ k = r := by
      rw [hc]
      rw [Nat.add_one_mul] at hr
      exact Nat.div_eq_of_lt_le (by omega) (by rw [Nat.add_one_mul]; omega)
    exact hv ▸ hs.finished k (hv ▸ ho)
  obtain ⟨q', hr, hq', he', hl⟩ := (h.reaches.double h.even h.length trivial).climb 32 hd (by
      rw [show (c.double hash).level = c.level + 1 from rfl, pow_add]
      omega) hf (fun _ _ _ _ _ _ _ _ _ => trivial)
  have hm := Nat.pow_le_pow_right Nat.two_pos hl
  rw [show (c.double hash).level = c.level + 1 from rfl] at hm
  refine ⟨q', _, rfl, hl, hr, hq', he', by omega, by omega, fun h0 => ?_⟩
  rw [h0, Nat.zero_add, Nat.one_mul] at hq'
  omega

lemma Edge.sweep (fuel : Nat) (h : Edge hash leaves p leaf s count q c)
    (hs : Counted hash leaves p leaf s) (hc : s.count = leaves.length)
    (hl : leaves.length < 2 ^ 31) (hf : leaves.length ≤ 2 ^ (c.level + fuel)) :
    ∃ count', Edge hash leaves p leaf s count' 0 (s.sweep hash fuel count c) := by
  induction fuel generalizing count q c with
  | zero =>
    have hq : q = 0 := by
      by_contra hn
      have hm : 1 * 2 ^ c.level ≤ q * 2 ^ c.level := mul_le_mul_right _ (pos_of_ne_zero hn)
      have hcq := h.count_eq
      have hlt := h.lt
      rw [add_one_mul] at hcq
      rw [add_zero] at hf
      omega
    subst hq
    exact ⟨count, h⟩
  | succ fuel ih =>
    rw [MerkleState.sweep]
    split_ifs with ht
    · have hq : q = 0 := by
        have hcq := h.count_eq.trans (ht.trans (one_mul _).symm)
        exact Nat.succ_injective (Nat.eq_of_mul_eq_mul_right (Nat.two_pow_pos _) hcq)
      subst hq
      exact ⟨count, h⟩
    · obtain ⟨q', c', hc', hv, he⟩ := h.step hs hc hl ht
      dsimp only
      rw [← hc']
      exact ih he (hf.trans (Nat.pow_le_pow_right Nat.two_pos (by omega)))

lemma merkleComputation_edge (hn : leaves ≠ []) (hl : leaves.length < 2 ^ 31)
    (hlf : p < leaves.length → leaves[p]? = some leaf) :
    ∃ s count c, Counted hash leaves p leaf s ∧ s.count = leaves.length ∧
      Edge hash leaves p leaf s count 0 c ∧
      merkleComputation hash leaves p = (c.h, s.mutated, c.branch) := by
  obtain ⟨hs, hc⟩ := @counted_leaves hash _ _ _ hlf hl
  have hps := length_pos_iff.2 hn
  obtain ⟨q, hq, hv⟩ := lowestBit_spec 32 0 hps (by omega) (one_dvd _)
  rw [merkleComputation, if_neg (by simpa using hn)]
  generalize leaves.foldl (MerkleState.addLeaf hash p) {} = s at hs hc
  dsimp only
  rw [hc]
  generalize lowestBit leaves.length 32 0 = k at hq
  have hd : s.count / 2 ^ k = q + 1 := by
    rw [hc, ← hq, Nat.mul_div_cancel _ (Nat.two_pow_pos _)]
  have hf := hs.finished k (by omega)
  rw [hd, Nat.add_sub_cancel] at hf
  have hw := Nat.two_pow_pos k
  have ht : Edge hash leaves p leaf s leaves.length q
      ⟨k, s.inner k, s.matchlevel = k, s.mutated, s.branch⟩ := by
    refine ⟨⟨hf.node, fun _ => trivial, fun hp => ?_, fun hp hm => ?_, fun _ => rfl⟩, hq, hv,
      le_rfl, by simp, fun h0 => ?_⟩
    · simpa using hf.matched hp
    · exact hf.path hp (by simpa using hm)
    · rw [h0, Nat.zero_add, Nat.one_mul] at hq
      dsimp only
      omega
  obtain ⟨count, he⟩ := ht.sweep 32 hs hc hl
    (hl.le.trans (Nat.pow_le_pow_right Nat.two_pos (by omega)))
  exact ⟨s, count, _, hs, hc, he, rfl⟩

lemma Edge.below (h : Edge hash leaves p leaf s count 0 c) :
    ∀ j < c.level, 1 < (level hash leaves j).length := by
  intro j hj
  by_contra hle
  have hm : (level hash leaves j).length * 2 ^ j ≤ 1 * 2 ^ j :=
    Nat.mul_le_mul_right _ (Nat.le_of_not_lt hle)
  have hl := h.low rfl
  have hp := Nat.pow_le_pow_right Nat.two_pos hj
  have hn := (length_level (h := hash) leaves j).1
  rw [Nat.succ_eq_add_one, pow_succ'] at hp
  omega

lemma Edge.root (h : Edge hash leaves p leaf s count 0 c) : root hash leaves = some c.h :=
  (root_eq h.below h.length).trans h.reaches.node

/-- The root is the one of the levels, and every branch leads to it. -/
theorem computeMerkleRoot_correct (hash : Uint256 → Uint256 → Uint256) (leaves : List Uint256)
    (hne : leaves ≠ []) (hl : leaves.length < 2 ^ 31) :
    root hash leaves = some (computeMerkleRoot hash leaves).1 ∧
    ∀ (p : Nat) (hp : p < leaves.length), computeMerkleRootFromBranch hash leaves[p]
      (computeMerkleBranch hash leaves p) p = (computeMerkleRoot hash leaves).1 := by
  obtain ⟨s, count, c, hs, hc, h, hn⟩ := @merkleComputation_edge hash leaves (2 ^ 32 - 1) 0
    hne hl (fun hp => by omega)
  have hr : (computeMerkleRoot hash leaves).1 = c.h := by rw [computeMerkleRoot, hn]
  rw [hr]
  refine ⟨h.root, fun p hp => ?_⟩
  obtain ⟨s', count', c', -, -, h', hr'⟩ := @merkleComputation_edge hash leaves p leaves[p]
    hne hl (fun _ => getElem?_eq_getElem hp)
  have hle := h'.le
  rw [← h'.count_eq, zero_add, one_mul] at hle
  have hz : p / 2 ^ c'.level = 0 := div_eq_of_lt (hp.trans_le hle)
  have ht := (h'.reaches.path hp ((h'.reaches.matched hp).2 hz)).2
  rw [hz, h'.reaches.node] at ht
  rw [computeMerkleBranch, hr', ← some_inj.1 ht]
  exact some_inj.1 (h'.root.symm.trans h.root)

theorem computeMerkleRoot_of_three : root (fun a b => a + 2 * b) [1, 2, 3] = some 23 :=
  (computeMerkleRoot_correct (fun a b => a + 2 * b) [1, 2, 3] (by simp) (by decide)).1

lemma exists_top (hne : leaves ≠ []) (hl : leaves.length < 2 ^ 31) :
    ∃ k, level hash leaves k = [(computeMerkleRoot hash leaves).1] ∧
      ((computeMerkleRoot hash leaves).2 = false → PairsDiffer hash leaves) := by
  obtain ⟨s, count, c, hs, hc, h, hr⟩ := @merkleComputation_edge hash leaves (2 ^ 32 - 1) 0
    hne hl (fun hp => by omega)
  rw [computeMerkleRoot, hr]
  obtain ⟨z, hz⟩ := length_eq_one_iff.1 h.length
  have hn := h.reaches.node
  rw [hz] at hn
  exact ⟨c.level, hz.trans (congrArg singleton (some_inj.1 hn)),
    fun hm k q hq => hs.flag hm k q (hc ▸ hq)⟩

/-- Two lists of leaves with the same root and without the flag are equal. -/
theorem computeMerkleRoot_injective {hash : Uint256 → Uint256 → Uint256}
    (hi : ∀ a b c d, hash a b = hash c d → a = c ∧ b = d) {leaves leaves' : List Uint256}
    (hlf : ∀ x ∈ leaves ++ leaves', ∀ a b, hash a b ≠ x) (hne : leaves ≠ []) (hne' : leaves' ≠ [])
    (hln : leaves.length < 2 ^ 31) (hl' : leaves'.length < 2 ^ 31)
    (hr : (computeMerkleRoot hash leaves).1 = (computeMerkleRoot hash leaves').1)
    (hm : (computeMerkleRoot hash leaves).2 = false)
    (hm' : (computeMerkleRoot hash leaves').2 = false) : leaves = leaves' := by
  obtain ⟨k, ht, hd⟩ := @exists_top hash leaves hne hln
  obtain ⟨k', ht', hd'⟩ := @exists_top hash leaves' hne' hl'
  have hw : ∀ {l l' : List Uint256} {d j : Nat}, l ≠ [] → (∀ x ∈ l, ∀ a b, hash a b ≠ x) →
      (level hash l d)[0]? = (level hash l' (j + 1 + d))[0]? → False := by
    intro l l' d j hl hlf heq
    obtain ⟨x, rest, rfl⟩ := exists_cons_of_ne_nil hl
    have h0 := left_eq hi (j := 0) (k := j + 1) (d := d) (by simpa using heq) hl
    rw [level_succ] at h0
    obtain ⟨a, b, ha, -⟩ := next_inv h0.symm
    exact hlf x (by simp) a b ha.symm
  have heq : (level hash leaves k)[0]? = (level hash leaves' k')[0]? := by rw [ht, ht', hr]
  obtain hlt | rfl | hg := Nat.lt_trichotomy k k'
  · obtain ⟨j, rfl⟩ := Nat.exists_eq_add_of_lt hlt
    exact (hw (j := j) hne (fun x hx => hlf x (by simp [hx]))
      (by rwa [show j + 1 + k = k + j + 1 by omega])).elim
  · exact (hd hm).leaves_eq hi (hd' hm') (by rw [ht, ht', hr])
  · obtain ⟨j, rfl⟩ := Nat.exists_eq_add_of_lt hg
    exact (hw (j := j) hne' (fun x hx => hlf x (by simp [hx]))
      (by rw [show j + 1 + k' = k' + j + 1 by omega]; exact heq.symm)).elim

theorem computeMerkleRoot_ne_of_ne : (computeMerkleRoot (fun a b => pair a b + 3) [0]).1 ≠
    (computeMerkleRoot (fun a b => pair a b + 3) [1, 2]).1 := fun hr =>
  absurd (@computeMerkleRoot_injective (fun a b => pair a b + 3)
    (fun a b c d h => pair_eq_pair.1 (by simpa using h)) [0] [1, 2]
    (fun x hx a b => by simp at hx; rcases hx with rfl | rfl | rfl <;> nofun) (by simp) (by simp)
    (by decide) (by decide) hr (by decide +kernel) (by decide +kernel)) (by simp)

section
variable (hi : ∀ a b c d, hash a b = hash c d → a = c ∧ b = d)
include hi

lemma computeMerkleRootFromBranch_inj {branch' : List Uint256}
    (hl : branch.length = branch'.length) (h : computeMerkleRootFromBranch hash x branch p =
      computeMerkleRootFromBranch hash y branch' p) : x = y ∧ branch = branch' := by
  induction branch using List.reverseRecOn generalizing branch' with
  | nil =>
    obtain rfl := length_eq_zero_iff.1 hl.symm
    exact ⟨h, rfl⟩
  | append_singleton branch z ih =>
    obtain rfl | ⟨branch', z', rfl⟩ := eq_nil_or_concat branch'
    · simp at hl
    · rw [concat_eq_append] at hl h ⊢
      replace hl : branch.length = branch'.length := by simpa using hl
      rw [computeMerkleRootFromBranch_concat, computeMerkleRootFromBranch_concat, ← hl] at h
      split_ifs at h
      · obtain ⟨rfl, he⟩ := hi _ _ _ _ h
        obtain ⟨rfl, rfl⟩ := ih hl he
        exact ⟨rfl, rfl⟩
      · obtain ⟨he, rfl⟩ := hi _ _ _ _ h
        obtain ⟨rfl, rfl⟩ := ih hl he
        exact ⟨rfl, rfl⟩

/-- What leads to the root from a position, with a branch of the right length, is the leaf there,
with its own branch. -/
theorem merkleBranch_sound (hl : leaves.length < 2 ^ 31) (hp : p < leaves.length)
    (hb : branch.length = (computeMerkleBranch hash leaves p).length)
    (hr : computeMerkleRootFromBranch hash x branch p = (computeMerkleRoot hash leaves).1) :
    x = leaves[p] ∧ branch = computeMerkleBranch hash leaves p := by
  have hne := ne_nil_of_length_pos (hp.trans_le' p.zero_le)
  obtain ⟨s, count, c, -, -, h, hn⟩ := @merkleComputation_edge hash leaves (2 ^ 32 - 1) 0
    hne hl (fun hp => by omega)
  obtain ⟨s', count', c', -, -, h', hn'⟩ := @merkleComputation_edge hash leaves p leaves[p]
    hne hl (fun _ => getElem?_eq_getElem hp)
  have hle := h'.le
  rw [← h'.count_eq, zero_add, one_mul] at hle
  have hz : p / 2 ^ c'.level = 0 := div_eq_of_lt (hp.trans_le hle)
  have ht := (h'.reaches.path hp ((h'.reaches.matched hp).2 hz)).2
  rw [hz, h'.reaches.node, ← h'.root, h.root] at ht
  rw [computeMerkleRoot, hn, some_inj.1 ht] at hr
  rw [computeMerkleBranch, hn'] at hb ⊢
  exact computeMerkleRootFromBranch_inj hi hb hr

end

theorem no_third_leaf : computeMerkleRootFromBranch (fun a b => pair a b + 3) 0 [1] 0 ≠
    (computeMerkleRoot (fun a b => pair a b + 3) [1, 2]).1 := fun h =>
  absurd (@merkleBranch_sound (fun a b => pair a b + 3) [1, 2] 0 0 [1]
    (fun a b c d h => pair_eq_pair.1 (by simpa using h)) (by decide) (by decide)
    (by decide +kernel) h).1 (by decide)

end Trivechain.Consensus
