import Trivechain.Evo.MNList

/-!
# Governance votes

`CGovernanceVote`, the file in which an object keeps its votes, and the bounded caches in which
votes wait.

`operator<` of votes first asks for a smaller outpoint and then for an equal one, so it never holds.
`operator<` of pairs of a vote and a time compares the votes only. So an ordered container does not
tell such pairs apart, and the cache of orphan votes has at most one of them for a key.
-/

namespace Trivechain.Governance
open Bls Evo List

structure GovernanceVote where
  masternodeOutpoint : OutPoint
  nParentHash : Uint256
  nVoteOutcome : Int
  nVoteSignal : Int
  nTime : Int
  vchSig : List Nat := []
deriving DecidableEq

/-- The hash of a vote covers all fields but the signature. -/
class VoteHash where
  hash : OutPoint → Uint256 → Int → Int → Int → Uint256

namespace GovernanceVote
variable (vote : GovernanceVote)

def getHash [VoteHash] : Uint256 :=
  VoteHash.hash vote.masternodeOutpoint vote.nParentHash vote.nVoteSignal vote.nVoteOutcome
    vote.nTime

def getSignal : Nat := (vote.nVoteSignal % 2 ^ 32).toNat

def getOutcome : Nat := (vote.nVoteOutcome % 2 ^ 32).toNat

/-- `operator<`, with its early returns. -/
def lt (vote1 vote2 : GovernanceVote) : Bool :=
  let fResult := compare vote1.masternodeOutpoint vote2.masternodeOutpoint == .lt
  if !fResult then false
  else
    let fResult := vote1.masternodeOutpoint == vote2.masternodeOutpoint
    let fResult := fResult && vote1.nParentHash < vote2.nParentHash
    if !fResult then false
    else
      let fResult := fResult && vote1.nParentHash == vote2.nParentHash
      let fResult := fResult && vote1.nVoteOutcome < vote2.nVoteOutcome
      if !fResult then false
      else
        let fResult := fResult && vote1.nVoteOutcome == vote2.nVoteOutcome
        let fResult := fResult && vote1.nVoteSignal == vote2.nVoteSignal
        if !fResult then false
        else
          let fResult := fResult && vote1.nVoteSignal == vote2.nVoteSignal
          fResult && vote1.nTime < vote2.nTime

@[simp] lemma lt_eq_false (vote1 vote2 : GovernanceVote) : vote1.lt vote2 = false := by
  unfold lt
  by_cases hl : compare vote1.masternodeOutpoint vote2.masternodeOutpoint = .lt
  · have hn : vote1.masternodeOutpoint ≠ vote2.masternodeOutpoint := by
      rintro he
      have hs : compare vote2.masternodeOutpoint vote2.masternodeOutpoint = .eq :=
        Std.ReflCmp.compare_self
      rw [he, hs] at hl
      cases hl
    simp [hl, hn]
  · simp [hl]

end GovernanceVote

abbrev VoteTimePair := GovernanceVote × Int

/-- `operator<` of `vote_time_pair_t`, which hides the one of `std::pair`. -/
def VoteTimePair.lt (p q : VoteTimePair) : Bool := p.1.lt q.1

/-- `CacheMap`: the most recent items, at most one for a key. -/
structure CacheMap (K V : Type) where
  nMaxSize : Nat := 0
  listItems : List (K × V) := []
  distinct : (listItems.map Prod.fst).Nodup := by simp

namespace CacheMap
variable {K V : Type} [DecidableEq K] (c : CacheMap K V)

def hasKey (key : K) : Bool := c.listItems.any fun item => item.1 = key

def pruned : List (K × V) :=
  if c.listItems.length = c.nMaxSize then c.listItems.dropLast else c.listItems

omit [DecidableEq K] in
lemma pruned_sublist : c.pruned.Sublist c.listItems := by
  unfold pruned
  split_ifs
  · exact dropLast_sublist _
  · exact List.Sublist.refl _

/-- The cache after `Insert`, and whether the item was added. -/
def insert (key : K) (value : V) : CacheMap K V × Bool :=
  if h : c.hasKey key then (c, false)
  else
    ({ nMaxSize := c.nMaxSize
       listItems := (key, value) :: c.pruned
       distinct := by
        have hkey : key ∉ c.listItems.map Prod.fst := by simpa [hasKey] using h
        have hsub := c.pruned_sublist.map Prod.fst
        exact nodup_cons.2 ⟨fun hmem => hkey (hsub.subset hmem), hsub.nodup c.distinct⟩ },
      true)

end CacheMap

/-- `CacheMultiMap`: the most recent items. Items of one key that `lt` does not tell apart count as
one. -/
structure CacheMultiMap (K V : Type) (lt : V → V → Bool) where
  nMaxSize : Nat := 0
  listItems : List (K × V) := []
  distinct : listItems.Pairwise fun a b => a.1 = b.1 → lt a.2 b.2 ∨ lt b.2 a.2 := by simp

namespace CacheMultiMap
variable {K V : Type} [DecidableEq K] {lt : V → V → Bool} (c : CacheMultiMap K V lt)

def equiv (lt : V → V → Bool) (a b : V) : Bool := !lt a b && !lt b a

def pruned : List (K × V) :=
  if c.listItems.length = c.nMaxSize then c.listItems.dropLast else c.listItems

omit [DecidableEq K] in
lemma pruned_sublist : c.pruned.Sublist c.listItems := by
  unfold pruned
  split_ifs
  · exact dropLast_sublist _
  · exact List.Sublist.refl _

def insert (key : K) (value : V) : CacheMultiMap K V lt × Bool :=
  if h : c.listItems.any fun item => item.1 = key ∧ equiv lt item.2 value then (c, false)
  else
    ({ nMaxSize := c.nMaxSize
       listItems := (key, value) :: c.pruned
       distinct := by
        refine pairwise_cons.2 ⟨fun item hmem heq => ?_, c.distinct.sublist c.pruned_sublist⟩
        have := c.pruned_sublist.subset hmem
        simp only [any_eq_true, decide_eq_true_eq, not_exists, not_and] at h
        have := h item this heq.symm
        grind [equiv] }, true)

def getAll (key : K) : List V :=
  ((c.listItems.filter fun item => item.1 = key).map Prod.snd).insertionSort fun a b => ¬ lt b a

def erase (key : K) (value : V) : CacheMultiMap K V lt where
  nMaxSize := c.nMaxSize
  listItems := c.listItems.eraseP fun item => item.1 = key ∧ equiv lt item.2 value
  distinct := c.distinct.sublist eraseP_sublist

lemma mem_getAll {key : K} {value : V} : value ∈ c.getAll key ↔ (key, value) ∈ c.listItems := by
  simp [getAll, mem_insertionSort]

omit [DecidableEq K] in
lemma mem_eraseP_iff {α : Type} {R : α → α → Prop} {p : α → Bool}
    (hp : ∀ a b, p a → p b → ¬ R a b) {l : List α} (hl : l.Pairwise R) {x : α} :
    x ∈ l.eraseP p ↔ x ∈ l ∧ ¬ p x := by
  induction l with
  | nil => simp
  | cons a l ih =>
    obtain ⟨ha, hl⟩ := pairwise_cons.1 hl
    by_cases hpa : p a
    · rw [eraseP_cons_of_pos hpa, mem_cons]
      constructor
      · exact fun hx => ⟨.inr hx, fun hpx => hp a x hpa hpx (ha x hx)⟩
      · rintro ⟨rfl | hx, hpx⟩
        · exact absurd hpa hpx
        · exact hx
    · rw [eraseP_cons_of_neg hpa, mem_cons, mem_cons, ih hl]
      constructor
      · rintro (rfl | ⟨hx, hpx⟩)
        · exact ⟨.inl rfl, hpa⟩
        · exact ⟨.inr hx, hpx⟩
      · rintro ⟨rfl | hx, hpx⟩
        · exact .inl rfl
        · exact .inr ⟨hx, hpx⟩

lemma mem_listItems_erase (ht : ∀ a b v : V, equiv lt a v → equiv lt b v → equiv lt a b)
    {key key' : K} {value value' : V} : (key', value') ∈ (c.erase key value).listItems ↔
      (key', value') ∈ c.listItems ∧ ¬ (key' = key ∧ equiv lt value' value = true) := by
  have hp : ∀ a b : K × V, decide (a.1 = key ∧ equiv lt a.2 value) = true →
      decide (b.1 = key ∧ equiv lt b.2 value) = true →
      ¬ (a.1 = b.1 → lt a.2 b.2 ∨ lt b.2 a.2) := by
    intro a b ha hb hd
    obtain ⟨hk, hv⟩ := of_decide_eq_true ha
    obtain ⟨hkb, hvb⟩ := of_decide_eq_true hb
    have hab := ht a.2 b.2 value hv hvb
    have := hd (hk.trans hkb.symm)
    grind [equiv]
  exact (mem_eraseP_iff hp c.distinct).trans (by simp)

end CacheMultiMap

@[simp] lemma VoteTimePair.equiv_eq_true (p q : VoteTimePair) :
    CacheMultiMap.equiv VoteTimePair.lt p q = true := by
  simp [CacheMultiMap.equiv, VoteTimePair.lt]

variable [VoteHash]

/-- `CGovernanceObjectVoteFile`: the votes, the newest first. -/
structure VoteFile where
  listVotes : List GovernanceVote := []
  nodup : (listVotes.map (GovernanceVote.getHash ·)).Nodup := by simp

namespace VoteFile
variable (f : VoteFile)

def hasVote (nHash : Uint256) : Bool := f.listVotes.any fun vote => vote.getHash = nHash

/-- The vote is by the same masternode for the same object and signal, and older. -/
def outdated (vote old : GovernanceVote) : Bool :=
  old.masternodeOutpoint = vote.masternodeOutpoint ∧ old.nParentHash = vote.nParentHash ∧
    old.getSignal = vote.getSignal ∧ old.nTime < vote.nTime

/-- `AddVote`, with `RemoveOldVotes`. -/
def addVote (vote : GovernanceVote) : VoteFile :=
  if h : f.hasVote vote.getHash then f
  else
    { listVotes := (vote :: f.listVotes).filter fun old => !outdated vote old
      nodup := by
        have hnew : vote.getHash ∉ f.listVotes.map (GovernanceVote.getHash ·) := by
          simpa [hasVote] using h
        exact (filter_sublist.map _).nodup (nodup_cons.2 ⟨hnew, f.nodup⟩) }

end VoteFile
end Trivechain.Governance
