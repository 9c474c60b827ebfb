import Trivechain.Evo.ListRuns

/-!
# Punishment of masternodes

`PoSePunish` adds to the penalty of a masternode up to the maximum of the list, and bans the
masternode when it gets there. The maximum follows the size of the list, and a revocation bans
without a penalty. So a score above the maximum of a list that shrank is cut, and the score of a
banned masternode moves to the maximum although it is documented to stay.
-/

namespace Trivechain.Evo
open DeterministicMNList DeterministicMN

namespace DeterministicMNList

/-- What is documented for the states of a punished masternode before and after. -/
structure Punished (l : DeterministicMNList) (penalty : Int) (s s' : DeterministicMNState) :
    Prop where
  increases : s.nPoSePenalty ≤ s'.nPoSePenalty
  keptIfBanned : s.nPoSeBanHeight ≠ -1 → s'.nPoSePenalty = s.nPoSePenalty
  banHeight : s'.nPoSeBanHeight =
    if s.nPoSeBanHeight = -1 ∧ max 100 (l.getAllMNsCount : Int) ≤ s.nPoSePenalty + penalty
    then l.nHeight else s.nPoSeBanHeight

/-- The score is at most the maximum, and equal to it if the masternode is banned. -/
def WithinMaximum (l : DeterministicMNList) (s : DeterministicMNState) : Prop :=
  s.nPoSePenalty ≤ l.calcMaxPoSePenalty ∧
    (s.nPoSeBanHeight ≠ -1 → s.nPoSePenalty = l.calcMaxPoSePenalty)

variable {l : DeterministicMNList} {s : DeterministicMNState} {penalty : Int}

lemma punishedState_nPoSePenalty : (l.punishedState s penalty).nPoSePenalty =
    min l.calcMaxPoSePenalty (s.nPoSePenalty + penalty) := by
  unfold punishedState
  dsimp only
  split_ifs <;> rfl

lemma punishedState_nPoSeBanHeight : (l.punishedState s penalty).nPoSeBanHeight =
    if s.nPoSeBanHeight = -1 ∧ l.calcMaxPoSePenalty ≤ s.nPoSePenalty + penalty
    then l.nHeight else s.nPoSeBanHeight := by
  unfold punishedState
  simp only [le_min_iff, le_refl, true_and, and_comm]
  split_ifs <;> rfl

lemma punished_iff (hp : 0 < penalty) :
    l.Punished penalty s (l.punishedState s penalty) ↔ l.WithinMaximum s := by
  constructor
  · intro h
    have hl := h.increases
    rw [punishedState_nPoSePenalty] at hl
    refine ⟨hl.trans (min_le_left _ _), fun hb => ?_⟩
    have hk := h.keptIfBanned hb
    rw [punishedState_nPoSePenalty] at hk
    omega
  · rintro ⟨hl, hb⟩
    refine ⟨?_, fun hn => ?_, punishedState_nPoSeBanHeight⟩
    · rw [punishedState_nPoSePenalty]
      omega
    · have he := hb hn
      rw [punishedState_nPoSePenalty]
      omega

variable [PropertyHash] {dmn : DeterministicMN} {h : Uint256}

/-- The properties in the index stay, so that no assertion of `UpdateMN` can fail. -/
lemma poSePunish_eq (hd : l.getMN h = some dmn) (hp : 0 < penalty) :
    l.poSePunish h penalty = .ok { l with
      mnMap := l.mnMap.insert dmn.proTxHash
        (dmn.withState (l.punishedState dmn.pdmnState penalty)) } := by
  have hs : ∀ l' : DeterministicMNList, l'.updateUniqueProperties dmn.proTxHash dmn.pdmnState
      (l.punishedState dmn.pdmnState penalty) = .ok l' := by
    intro l'
    unfold punishedState
    dsimp only
    split_ifs <;> simp [updateUniqueProperties, updateUniqueProperty]
  rw [poSePunish, Run.ensure_pos hp, Run.ok_bind, hd, Run.demand_some, Run.ok_bind,
    updateMN_eq hd, updateMNOf, hs]
  rfl

end DeterministicMNList

namespace Revoked

local instance : PropertyHash := encodingHash

def revoked : DeterministicMNState :=
  ({ keyIDOwner := 1 } : DeterministicMNState).resetOperatorFields.banIfNotBanned 5

end Revoked
end Trivechain.Evo
