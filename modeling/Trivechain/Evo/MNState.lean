import Trivechain.Primitives.Transaction

/-!
# The state of a masternode

`CDeterministicMNState` and the difference of two states. A difference holds the fields
that are different, with their new values.
-/

namespace Trivechain.Evo
open Bls

structure DeterministicMNState where
  nRegisteredHeight : Int := -1
  nLastPaidHeight : Int := 0
  nPoSePenalty : Int := 0
  nPoSeRevivedHeight : Int := -1
  nPoSeBanHeight : Int := -1
  nRevocationReason : Nat := 0
  confirmedHash : Uint256 := 0
  confirmedHashWithProRegTxHash : Uint256 := 0
  keyIDOwner : KeyID := 0
  pubKeyOperator : Option PubKey := none
  keyIDVoting : KeyID := 0
  addr : Service := .null
  scriptPayout : Script := .empty
  scriptOperatorPayout : Script := .empty
deriving DecidableEq

namespace DeterministicMNState

def resetOperatorFields (s : DeterministicMNState) : DeterministicMNState :=
  { s with pubKeyOperator := none, addr := .null, scriptOperatorPayout := .empty,
           nRevocationReason := 0 }

def banIfNotBanned (s : DeterministicMNState) (height : Int) : DeterministicMNState :=
  if s.nPoSeBanHeight = -1 then { s with nPoSeBanHeight := height } else s

end DeterministicMNState

/-- `CDeterministicMNStateDiff`: a field is set where its flag is. -/
structure DeterministicMNStateDiff where
  nRegisteredHeight : Option Int
  nLastPaidHeight : Option Int
  nPoSePenalty : Option Int
  nPoSeRevivedHeight : Option Int
  nPoSeBanHeight : Option Int
  nRevocationReason : Option Nat
  confirmedHash : Option Uint256
  confirmedHashWithProRegTxHash : Option Uint256
  keyIDOwner : Option KeyID
  pubKeyOperator : Option (Option PubKey)
  keyIDVoting : Option KeyID
  addr : Option Service
  scriptPayout : Option Script
  scriptOperatorPayout : Option Script
deriving DecidableEq

namespace DeterministicMNStateDiff

/-- `DMN_STATE_DIFF_LINE` of the constructor. -/
def line {α : Type} [DecidableEq α] (a b : α) : Option α := if a ≠ b then some b else none

@[simp] lemma getD_line {α : Type} [DecidableEq α] (a b : α) : (line a b).getD a = b := by
  unfold line
  split_ifs with h
  · rfl
  · exact not_not.1 h

@[simp] lemma line_self {α : Type} [DecidableEq α] (a : α) : line a a = none := by
  simp [line]

def ofStates (a b : DeterministicMNState) : DeterministicMNStateDiff where
  nRegisteredHeight := line a.nRegisteredHeight b.nRegisteredHeight
  nLastPaidHeight := line a.nLastPaidHeight b.nLastPaidHeight
  nPoSePenalty := line a.nPoSePenalty b.nPoSePenalty
  nPoSeRevivedHeight := line a.nPoSeRevivedHeight b.nPoSeRevivedHeight
  nPoSeBanHeight := line a.nPoSeBanHeight b.nPoSeBanHeight
  nRevocationReason := line a.nRevocationReason b.nRevocationReason
  confirmedHash := line a.confirmedHash b.confirmedHash
  confirmedHashWithProRegTxHash :=
    line a.confirmedHashWithProRegTxHash b.confirmedHashWithProRegTxHash
  keyIDOwner := line a.keyIDOwner b.keyIDOwner
  pubKeyOperator := line a.pubKeyOperator b.pubKeyOperator
  keyIDVoting := line a.keyIDVoting b.keyIDVoting
  addr := line a.addr b.addr
  scriptPayout := line a.scriptPayout b.scriptPayout
  scriptOperatorPayout := line a.scriptOperatorPayout b.scriptOperatorPayout

def none : DeterministicMNStateDiff :=
  ⟨.none, .none, .none, .none, .none, .none, .none, .none, .none, .none, .none, .none, .none, .none⟩

def applyToState (diff : DeterministicMNStateDiff) (target : DeterministicMNState) :
    DeterministicMNState where
  nRegisteredHeight := diff.nRegisteredHeight.getD target.nRegisteredHeight
  nLastPaidHeight := diff.nLastPaidHeight.getD target.nLastPaidHeight
  nPoSePenalty := diff.nPoSePenalty.getD target.nPoSePenalty
  nPoSeRevivedHeight := diff.nPoSeRevivedHeight.getD target.nPoSeRevivedHeight
  nPoSeBanHeight := diff.nPoSeBanHeight.getD target.nPoSeBanHeight
  nRevocationReason := diff.nRevocationReason.getD target.nRevocationReason
  confirmedHash := diff.confirmedHash.getD target.confirmedHash
  confirmedHashWithProRegTxHash :=
    diff.confirmedHashWithProRegTxHash.getD target.confirmedHashWithProRegTxHash
  keyIDOwner := diff.keyIDOwner.getD target.keyIDOwner
  pubKeyOperator := diff.pubKeyOperator.getD target.pubKeyOperator
  keyIDVoting := diff.keyIDVoting.getD target.keyIDVoting
  addr := diff.addr.getD target.addr
  scriptPayout := diff.scriptPayout.getD target.scriptPayout
  scriptOperatorPayout := diff.scriptOperatorPayout.getD target.scriptOperatorPayout

@[simp] lemma applyToState_ofStates (a b : DeterministicMNState) :
    (ofStates a b).applyToState a = b := by
  simp [applyToState, ofStates]

@[simp] lemma applyToState_none (a : DeterministicMNState) : none.applyToState a = a := rfl

lemma ofStates_eq_none {a b : DeterministicMNState} : ofStates a b = none ↔ a = b := by
  constructor
  · intro h
    rw [← applyToState_ofStates a b, h, applyToState_none]
  · rintro rfl
    simp [ofStates, none]

end DeterministicMNStateDiff
end Trivechain.Evo
