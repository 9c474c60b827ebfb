import Trivechain.Evo.BuildList
import Trivechain.Evo.Registry

/-!
# The effect of a block on a registry

What a block does to the masternodes, without indexes: registrations insert, updates replace a
state, and spent collaterals erase. The only faults left belong to transactions: a payload that does
not decode, a registration without an owner key, an operator key that another masternode holds, and
a commitment of an unknown type or with too few bits.
-/

namespace Trivechain.Evo
open Bls Llmq
open Run (denyIf orDeny dos)
open Std (ExtTreeMap)

/-- The state after the block on top of `pindexPrev` confirmed the masternode. -/
def DeterministicMN.confirmed [ChainHash] (env : Env) (pindexPrev : BlockIndex)
    (dmn : DeterministicMN) : DeterministicMNState :=
  if dmn.Confirmable env pindexPrev then
    dmn.pdmnState.updateConfirmedHash env dmn.proTxHash pindexPrev.getBlockHash
  else dmn.pdmnState

def DeterministicMN.decreased (dmn : DeterministicMN) : DeterministicMNState :=
  if 0 < dmn.pdmnState.nPoSePenalty ∧ dmn.pdmnState.nPoSeBanHeight = -1 then
    { dmn.pdmnState with nPoSePenalty := dmn.pdmnState.nPoSePenalty - 1 }
  else dmn.pdmnState

namespace Registry
variable (r : Registry)

def bare : DeterministicMNList :=
  { blockHash := r.blockHash, nHeight := r.nHeight
    nTotalRegisteredCount := r.nTotalRegisteredCount, mnMap := r.mnMap }

def holder (v : UniqueProperty) : Option DeterministicMN :=
  (Maps.values r.mnMap).find? fun dmn => dmn.Holds v

def mapStates (f : DeterministicMN → DeterministicMNState) : Registry :=
  { r with mnMap := r.mnMap.map fun _ dmn => dmn.withState (f dmn) }

def release (o : OutPoint) : Registry :=
  match r.holder (.collateralOutpoint o) with
  | some dmn => r.erase dmn.proTxHash
  | none => r

@[simp] lemma release_nTotalRegisteredCount (o : OutPoint) :
    (r.release o).nTotalRegisteredCount = r.nTotalRegisteredCount := by
  unfold release; split <;> rfl

def setLastPaid (nHeight : Int) (payee : Option DeterministicMN) : Registry :=
  match payee.bind fun p => r.mnMap[p.proTxHash]? with
  | some dmn => r.insert (dmn.withState { dmn.pdmnState with nLastPaidHeight := nHeight })
  | none => r

variable [ChainHash] (env : Env)

def prepare (tx : Transaction) (proTx : ProRegTx) : Registry :=
  { r with nTotalRegisteredCount := r.nTotalRegisteredCount + 1 }.release (proTx.collateralOf tx)

def register (getUTXOCoin : OutPoint → Option TxOut) (nHeight : Int) (tx : Transaction)
    (proTx : ProRegTx) : Run Registry := do
  denyIf (!proTx.internalCollateral ∧
    (getUTXOCoin (proTx.collateralOf tx)).all fun coin => coin.nValue ≠ collateralAmount)
    100 .invalid "bad-protx-collateral"
  let r' := r.prepare tx proTx
  denyIf (r'.holder (.addr proTx.addr)).isSome 100 .conflict "bad-protx-dup-addr"
  denyIf ((r'.holder (.keyIDOwner proTx.keyIDOwner)).isSome ∨
    (r'.holder (.pubKeyOperator proTx.pubKeyOperator)).isSome) 100 .conflict "bad-protx-dup-key"
  Run.ensure (proTx.keyIDOwner ≠ 0)
  return r'.insert (r.bare.registeredMN nHeight tx proTx)

def heldByOther (proTxHash : Uint256) (v : UniqueProperty) : Prop :=
  (r.holder v).any fun dmn => dmn.proTxHash ≠ proTxHash

instance (proTxHash : Uint256) (v : UniqueProperty) : Decidable (r.heldByOther proTxHash v) :=
  inferInstanceAs (Decidable (_ = true))

def updateService (nHeight : Int) (proTx : ProUpServTx) : Run Registry := do
  denyIf (r.heldByOther proTx.proTxHash (.addr proTx.addr)) 100 .conflict "bad-protx-dup-addr"
  let dmn ← orDeny r.mnMap[proTx.proTxHash]? 100 .invalid "bad-protx-hash"
  return r.insert (dmn.withState (proTx.newState nHeight dmn.pdmnState))

def updateRegistrar (nHeight : Int) (proTx : ProUpRegTx) : Run Registry := do
  let dmn ← orDeny r.mnMap[proTx.proTxHash]? 100 .invalid "bad-protx-hash"
  Run.ensure (¬ r.heldByOther proTx.proTxHash (.pubKeyOperator proTx.pubKeyOperator))
  return r.insert (dmn.withState (proTx.newState nHeight dmn.pdmnState))

def updateRevoke (nHeight : Int) (proTx : ProUpRevTx) : Run Registry := do
  let dmn ← orDeny r.mnMap[proTx.proTxHash]? 100 .invalid "bad-protx-hash"
  return r.insert (dmn.withState (proTx.newState nHeight dmn.pdmnState))

def punishMember (qc : FinalCommitment) (r : Registry) (entry : DeterministicMN × Nat) :
    Run Registry :=
  match r.mnMap[entry.1.proTxHash]? with
  | none => .ok r
  | some dmn => do
    if ← bitAt qc.validMembers entry.2 then return r
    return r.insert (dmn.withState (r.bare.punishedState dmn.pdmnState
      (r.bare.calcMaxPoSePenalty * 66 / 100)))

variable (view : ChainView) (pindexPrev : BlockIndex)

def punishMembers (qc : FinalCommitmentTxPayload) : Run Registry :=
  if qc.commitment.isNull then .ok r
  else do
    let quorumIndex ← quorumIndexOf env pindexPrev qc
    let members ← getAllQuorumMembers env view.ask qc.commitment.llmqType quorumIndex
    members.zipIdx.foldlM (punishMember qc.commitment) r

def applyTx (r : Registry) (tx : Transaction) : Run Registry :=
  let nHeight : Int := pindexPrev.nHeight + 1
  if tx.nVersion ≠ 3 then .ok r
  else
    match tx.payload with
    | .providerRegister payload => do
      r.register view.getUTXOCoin nHeight tx (← Run.demand .assertion payload)
    | .providerUpdateService payload => do
      r.updateService nHeight (← Run.demand .assertion payload)
    | .providerUpdateRegistrar payload => do
      r.updateRegistrar nHeight (← Run.demand .assertion payload)
    | .providerUpdateRevoke payload => do
      r.updateRevoke nHeight (← Run.demand .assertion payload)
    | .quorumCommitment payload => do
      r.punishMembers env view pindexPrev (← Run.demand .assertion payload)
    | .normal | .coinbase _ | .unknown _ => .ok r

def atNextBlock : Registry :=
  ({ r with blockHash := 0, nHeight := pindexPrev.nHeight + 1 }.mapStates
    fun dmn => dmn.confirmed env pindexPrev).mapStates DeterministicMN.decreased

def applyTxs (txs : List Transaction) : Run Registry :=
  txs.foldlM (applyTx env view pindexPrev) (r.atNextBlock env pindexPrev)

def applyBlock (block : Block) : Run Registry := do
  let r' ← r.applyTxs env view pindexPrev block.txs
  return (block.spent.foldl release r').setLastPaid (pindexPrev.nHeight + 1) r.bare.getMNPayee

end Registry
end Trivechain.Evo
