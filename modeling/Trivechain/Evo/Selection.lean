import Trivechain.Primitives.Env
import Trivechain.Evo.MNList

/-!
# Selection from a list

Who is paid next, who is paid in the blocks after that, and who forms a quorum.
-/

namespace Trivechain.Evo
open List Bool

def compareByLastPaid_GetHeight (dmn : DeterministicMN) : Int :=
  let s := dmn.pdmnState
  if s.nPoSeRevivedHeight ≠ -1 ∧ s.nLastPaidHeight < s.nPoSeRevivedHeight then
    s.nPoSeRevivedHeight
  else if s.nLastPaidHeight = 0 then s.nRegisteredHeight
  else s.nLastPaidHeight

def compareByLastPaid (a b : DeterministicMN) : Bool :=
  let ah := compareByLastPaid_GetHeight a
  let bh := compareByLastPaid_GetHeight b
  if ah = bh then a.proTxHash < b.proTxHash else ah < bh

def scoreLess (a b : Uint256 × DeterministicMN) : Bool :=
  if a.1 = b.1 then
    let o := a.2.collateralOutpoint
    let o' := b.2.collateralOutpoint
    o.hash < o'.hash ∨ o.hash = o'.hash ∧ o.n < o'.n
  else a.1 < b.1

namespace DeterministicMNList
variable (l : DeterministicMNList)

def getMNPayee : Option DeterministicMN :=
  l.validMNs.foldl (fun best dmn =>
    if best.all fun b => compareByLastPaid dmn b then some dmn else best) none

variable (env : Env)

def calculateScores (modifier : Uint256) : List (Uint256 × DeterministicMN) :=
  (l.validMNs.filter fun dmn => dmn.pdmnState.confirmedHash ≠ 0).map fun dmn =>
    (env.sha256 dmn.pdmnState.confirmedHashWithProRegTxHash modifier, dmn)

def calculateQuorum (maxSize : Nat) (modifier : Uint256) : List DeterministicMN :=
  -- descending
  (((l.calculateScores env modifier).mergeSort fun a b => !scoreLess a b).map Prod.snd).take maxSize

lemma length_calculateQuorum_le (maxSize : Nat) (modifier : Uint256) :
    (l.calculateQuorum env maxSize modifier).length ≤ maxSize := by
  simp [calculateQuorum]

def confirmedMNs : List DeterministicMN :=
  l.validMNs.filter fun dmn => dmn.pdmnState.confirmedHash ≠ 0

def rank (modifier : Uint256) (dmn : DeterministicMN) : Nat ×ₗ Nat ×ₗ Nat :=
  toLex (env.sha256 dmn.pdmnState.confirmedHashWithProRegTxHash modifier,
    toLex (dmn.collateralOutpoint.hash, dmn.collateralOutpoint.n))

variable {l env} {modifier : Uint256}

lemma scoreLess_iff {a b : Uint256 × DeterministicMN} : scoreLess a b = true ↔
    toLex (a.1, toLex (a.2.collateralOutpoint.hash, a.2.collateralOutpoint.n)) <
      toLex (b.1, toLex (b.2.collateralOutpoint.hash, b.2.collateralOutpoint.n)) := by
  simp only [Prod.Lex.toLex_lt_toLex, scoreLess]
  split_ifs with he
  · simp [he]
  · simp [he]

lemma ranked (hl : (l.allMNs.map (·.collateralOutpoint)).Nodup)
    {sorted : List (Uint256 × DeterministicMN)} (hp : sorted.Perm (l.calculateScores env modifier))
    (hs : sorted.Pairwise fun a b => !scoreLess a b) : (sorted.map Prod.snd).Perm l.confirmedMNs ∧
      (sorted.map Prod.snd).Pairwise fun a b => rank env modifier b < rank env modifier a := by
  have hm : (sorted.map Prod.snd).Perm l.confirmedMNs := by
    have hmp := hp.map Prod.snd
    rwa [calculateScores, map_map, show Prod.snd ∘ _ = id from rfl, map_id] at hmp
  refine ⟨hm, ?_⟩
  -- masternodes with the same rank have the same collateral
  have hn : ((sorted.map Prod.snd).map (·.collateralOutpoint)).Nodup := by
    refine (hm.map _).nodup_iff.2 (hl.sublist (List.Sublist.map _ ?_))
    exact filter_sublist.trans filter_sublist
  rw [map_map, List.Nodup, pairwise_map] at hn
  refine pairwise_map.2 ((hs.and hn).imp_of_mem fun {a b} ha hb hab => ?_)
  obtain ⟨hab, hne⟩ := hab
  obtain ⟨dmn, -, rfl⟩ := mem_map.1 (hp.subset ha)
  obtain ⟨dmn', -, rfl⟩ := mem_map.1 (hp.subset hb)
  rw [not_eq_true', eq_false_iff, ne_eq, scoreLess_iff, not_lt] at hab
  refine lt_of_le_of_ne hab fun he => hne ?_
  exact (congrArg (fun r => OutPoint.mk (ofLex (ofLex r).2).1 (ofLex (ofLex r).2).2) he).symm

variable (l env modifier) in
lemma sorted_mergeSort :
    ((l.calculateScores env modifier).mergeSort fun a b => !scoreLess a b).Pairwise
      fun a b => !scoreLess a b := by
  refine pairwise_mergeSort (fun a b c ha hb => ?_) (fun a b => ?_) _
  · simp only [not_eq_true', eq_false_iff, ne_eq, scoreLess_iff, not_lt] at ha hb ⊢
    exact hb.trans ha
  · simp only [or_eq_true, not_eq_true', eq_false_iff, ne_eq, scoreLess_iff, not_lt]
    exact le_total _ _

/-- A quorum is the top of the confirmed masternodes, whatever the order in which they are visited
and however they are sorted. -/
theorem calculateQuorum_top (hl : (l.allMNs.map (·.collateralOutpoint)).Nodup) (maxSize : Nat)
    (modifier : Uint256) {q : List DeterministicMN}
    (hq : q = l.calculateQuorum env maxSize modifier) :
    q.length = min maxSize l.confirmedMNs.length ∧ q.Nodup ∧ (∀ dmn ∈ q, dmn ∈ l.confirmedMNs) ∧
    q.Pairwise (fun a b => rank env modifier b < rank env modifier a) ∧
    (∀ dmn ∈ l.confirmedMNs, dmn ∉ q → ∀ a ∈ q, rank env modifier dmn < rank env modifier a) ∧
    (∀ sorted : List (Uint256 × DeterministicMN), sorted.Perm (l.calculateScores env modifier) →
      (sorted.Pairwise fun a b => !scoreLess a b) → (sorted.map Prod.snd).take maxSize = q) ∧
    q <+: l.calculateQuorum env (maxSize + 1) modifier := by
  subst hq
  obtain ⟨hp, hr⟩ := ranked hl (mergeSort_perm _ _) (sorted_mergeSort l env modifier)
  refine ⟨?_, ?_, fun dmn hd => ?_, hr.sublist (take_sublist ..), ?_, ?_,
    take_prefix_take_left (by omega)⟩
  · rw [calculateQuorum, length_take, hp.length_eq]
  · refine (hr.imp fun ht he => ?_).sublist (take_sublist ..)
    exact absurd ht (he ▸ lt_irrefl _)
  · exact hp.subset (mem_of_mem_take hd)
  · intro dmn hd hn a ha
    have hm := hp.symm.subset hd
    rw [← take_append_drop maxSize (map _ _)] at hr hm
    exact (pairwise_append.1 hr).2.2 a ha dmn ((mem_append.1 hm).resolve_left hn)
  · intro sorted hs hpr
    obtain ⟨hp', hr'⟩ := ranked hl hs hpr
    rw [calculateQuorum, List.Perm.eq_of_pairwise (fun a b _ _ hb hba => absurd hb hba.asymm)
      hr' hr (hp'.trans hp.symm)]

def twins : DeterministicMNList where
  mnMap := ((∅ : Std.ExtTreeMap Uint256 DeterministicMN).insert 1
    ⟨1, 0, ⟨1, 0⟩, 0, { confirmedHash := 1 }⟩).insert 2 ⟨2, 1, ⟨1, 1⟩, 0, { confirmedHash := 1 }⟩

theorem quorum_of_twins : (twins.calculateQuorum (.permissive .main .main) 1 0).length = 1 :=
  (calculateQuorum_top (by decide +kernel) 1 0 rfl).1.trans (by decide +kernel)

end DeterministicMNList
end Trivechain.Evo
