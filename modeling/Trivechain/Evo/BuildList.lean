import Trivechain.Evo.CheckSpecialTx

/-!
# The list after a block

`CDeterministicMNManager::BuildNewListFromBlock`: from the list of the previous block to the list
after a block. It asks the manager for lists, also for those of quorum blocks, so it is written over
any monad in which this can be done.
-/

namespace Trivechain.Evo
open Bls Llmq DeterministicMNState
open Run (denyIf orDeny dos)

/-- `CDeterministicMNState(proTx)`, registered at `nHeight`. Without an address it is banned at
first. -/
def ProRegTx.newState (proTx : ProRegTx) (nHeight : Int) : DeterministicMNState where
  keyIDOwner := proTx.keyIDOwner
  pubKeyOperator := proTx.pubKeyOperator
  keyIDVoting := proTx.keyIDVoting
  addr := proTx.addr
  scriptPayout := proTx.scriptPayout
  nRegisteredHeight := nHeight
  nPoSeBanHeight := if proTx.addr = .null then nHeight else -1

/-- Only revived when all keys are set. -/
def ProUpServTx.newState (proTx : ProUpServTx) (nHeight : Int) (s : DeterministicMNState) :
    DeterministicMNState :=
  let newState := { s with addr := proTx.addr, scriptOperatorPayout := proTx.scriptOperatorPayout }
  if newState.nPoSeBanHeight ≠ -1 ∧ newState.pubKeyOperator.isSome ∧ newState.keyIDVoting ≠ 0 ∧
      newState.keyIDOwner ≠ 0 then
    { newState with nPoSePenalty := 0, nPoSeBanHeight := -1, nPoSeRevivedHeight := nHeight }
  else newState

/-- A new operator key resets the operator's fields and bans. -/
def ProUpRegTx.newState (proTx : ProUpRegTx) (nHeight : Int) (s : DeterministicMNState) :
    DeterministicMNState :=
  let newState := if s.pubKeyOperator ≠ proTx.pubKeyOperator then
    s.resetOperatorFields.banIfNotBanned nHeight else s
  { newState with pubKeyOperator := proTx.pubKeyOperator, keyIDVoting := proTx.keyIDVoting
                  scriptPayout := proTx.scriptPayout }

def ProUpRevTx.newState (proTx : ProUpRevTx) (nHeight : Int) (s : DeterministicMNState) :
    DeterministicMNState :=
  { s.resetOperatorFields.banIfNotBanned nHeight with nRevocationReason := proTx.nReason }

section NewStates
variable (nHeight : Int) (s : DeterministicMNState)

@[simp] lemma banIfNotBanned_keyIDOwner : (s.banIfNotBanned nHeight).keyIDOwner = s.keyIDOwner := by
  unfold banIfNotBanned; split_ifs <;> rfl

@[simp] lemma banIfNotBanned_addr : (s.banIfNotBanned nHeight).addr = s.addr := by
  unfold banIfNotBanned; split_ifs <;> rfl

@[simp] lemma banIfNotBanned_pubKeyOperator :
    (s.banIfNotBanned nHeight).pubKeyOperator = s.pubKeyOperator := by
  unfold banIfNotBanned; split_ifs <;> rfl

@[simp] lemma ProUpServTx.newState_keyIDOwner (ptx : ProUpServTx) :
    (ptx.newState nHeight s).keyIDOwner = s.keyIDOwner := by
  unfold newState; dsimp only; split_ifs <;> rfl

@[simp] lemma ProUpServTx.newState_addr (ptx : ProUpServTx) :
    (ptx.newState nHeight s).addr = ptx.addr := by
  unfold newState; dsimp only; split_ifs <;> rfl

@[simp] lemma ProUpServTx.newState_pubKeyOperator (ptx : ProUpServTx) :
    (ptx.newState nHeight s).pubKeyOperator = s.pubKeyOperator := by
  unfold newState; dsimp only; split_ifs <;> rfl

@[simp] lemma ProUpRegTx.newState_keyIDOwner (ptx : ProUpRegTx) :
    (ptx.newState nHeight s).keyIDOwner = s.keyIDOwner := by
  unfold newState; dsimp only; split_ifs <;> simp [resetOperatorFields]

lemma ProUpRegTx.newState_addr (ptx : ProUpRegTx) : (ptx.newState nHeight s).addr =
      if s.pubKeyOperator ≠ ptx.pubKeyOperator then .null else s.addr := by
  unfold newState; dsimp only; split_ifs <;> simp [resetOperatorFields]

@[simp] lemma ProUpRegTx.newState_pubKeyOperator (ptx : ProUpRegTx) :
    (ptx.newState nHeight s).pubKeyOperator = ptx.pubKeyOperator := rfl

@[simp] lemma ProUpRevTx.newState_keyIDOwner (ptx : ProUpRevTx) :
    (ptx.newState nHeight s).keyIDOwner = s.keyIDOwner := by
  simp [newState, resetOperatorFields]

@[simp] lemma ProUpRevTx.newState_addr (ptx : ProUpRevTx) :
    (ptx.newState nHeight s).addr = .null := by
  simp [newState, resetOperatorFields]

@[simp] lemma ProUpRevTx.newState_pubKeyOperator (ptx : ProUpRevTx) :
    (ptx.newState nHeight s).pubKeyOperator = none := by
  simp [newState, resetOperatorFields]

end NewStates

variable [PropertyHash] [ChainHash] (env : Env)

def DeterministicMNState.updateConfirmedHash (s : DeterministicMNState)
    (proTxHash confirmedHash : Uint256) : DeterministicMNState :=
  { s with confirmedHash, confirmedHashWithProRegTxHash := env.sha256 proTxHash confirmedHash }

/-- The masternode is confirmed in the block on top of `pindexPrev`. -/
def DeterministicMN.Confirmable (pindexPrev : BlockIndex) (dmn : DeterministicMN) : Prop :=
  dmn.pdmnState.confirmedHash = 0 ∧ (env.consensus.nMasternodeMinimumConfirmations : Int) ≤
    pindexPrev.nHeight - dmn.pdmnState.nRegisteredHeight

instance (pindexPrev : BlockIndex) (dmn : DeterministicMN) :
    Decidable (dmn.Confirmable env pindexPrev) := inferInstanceAs (Decidable (_ ∧ _))

namespace DeterministicMNList

/-- The first loop of `BuildNewListFromBlock`, over the old list. -/
def confirmMNs (pindexPrev : BlockIndex) (oldList newList : DeterministicMNList) :
    Run DeterministicMNList :=
  oldList.allMNs.foldlM (fun newList dmn =>
    if dmn.Confirmable env pindexPrev then
      newList.updateMN dmn.proTxHash
        (dmn.pdmnState.updateConfirmedHash env dmn.proTxHash pindexPrev.getBlockHash)
    else .ok newList) newList

def decreasePoSePenalties (mnList : DeterministicMNList) : Run DeterministicMNList :=
  let toDecrease := (mnList.validMNs.filter fun dmn =>
    0 < dmn.pdmnState.nPoSePenalty ∧ dmn.pdmnState.nPoSeBanHeight = -1).map (·.proTxHash)
  toDecrease.foldlM poSeDecrease mnList

def removeReplaced (l : DeterministicMNList) (collateralOutpoint : OutPoint) :
    Run DeterministicMNList :=
  match l.getMNByCollateral collateralOutpoint with
  | some replacedDmn => l.removeMN replacedDmn.proTxHash
  | none => .ok l

def registeredMN (l : DeterministicMNList) (nHeight : Int) (tx : Transaction) (proTx : ProRegTx) :
    DeterministicMN where
  proTxHash := tx.getHash
  internalId := l.nTotalRegisteredCount
  collateralOutpoint := proTx.collateralOf tx
  nOperatorReward := proTx.nOperatorReward
  pdmnState := proTx.newState nHeight

def processProRegTx (getUTXOCoin : OutPoint → Option TxOut) (nHeight : Int)
    (newList : DeterministicMNList) (tx : Transaction) (payload : Option ProRegTx) :
    Run DeterministicMNList := do
  let proTx ← Run.demand .assertion payload
  let dmn := newList.registeredMN nHeight tx proTx
  let newList := { newList with nTotalRegisteredCount := newList.nTotalRegisteredCount + 1 }
  denyIf (!proTx.internalCollateral ∧
    (getUTXOCoin dmn.collateralOutpoint).all fun coin => coin.nValue ≠ collateralAmount)
    100 .invalid "bad-protx-collateral"
  let newList ← newList.removeReplaced dmn.collateralOutpoint
  denyIf (newList.hasUniqueProperty (.addr proTx.addr)) 100 .conflict "bad-protx-dup-addr"
  denyIf (newList.hasUniqueProperty (.keyIDOwner proTx.keyIDOwner) ∨
    newList.hasUniqueProperty (.pubKeyOperator proTx.pubKeyOperator)) 100 .conflict
    "bad-protx-dup-key"
  newList.addMN dmn

def processProUpServTx (nHeight : Int) (newList : DeterministicMNList)
    (payload : Option ProUpServTx) : Run DeterministicMNList := do
  let proTx ← Run.demand .assertion payload
  denyIf (← heldBy newList (.addr proTx.addr) fun dmn => dmn.proTxHash ≠ proTx.proTxHash) 100
    .conflict "bad-protx-dup-addr"
  let dmn ← orDeny (newList.getMN proTx.proTxHash) 100 .invalid "bad-protx-hash"
  newList.updateMN proTx.proTxHash (proTx.newState nHeight dmn.pdmnState)

def processProUpRegTx (nHeight : Int) (newList : DeterministicMNList)
    (payload : Option ProUpRegTx) : Run DeterministicMNList := do
  let proTx ← Run.demand .assertion payload
  let dmn ← orDeny (newList.getMN proTx.proTxHash) 100 .invalid "bad-protx-hash"
  newList.updateMN proTx.proTxHash (proTx.newState nHeight dmn.pdmnState)

def processProUpRevTx (nHeight : Int) (newList : DeterministicMNList)
    (payload : Option ProUpRevTx) : Run DeterministicMNList := do
  let proTx ← Run.demand .assertion payload
  let dmn ← orDeny (newList.getMN proTx.proTxHash) 100 .invalid "bad-protx-hash"
  newList.updateMN proTx.proTxHash (proTx.newState nHeight dmn.pdmnState)

/-- One round of the loop of `HandleQuorumCommitment`. -/
def punishMember (qc : FinalCommitment) (mnList : DeterministicMNList)
    (entry : DeterministicMN × Nat) : Run DeterministicMNList :=
  if (mnList.getMN entry.1.proTxHash).isNone then .ok mnList
  else do
    if ← bitAt qc.validMembers entry.2 then return mnList
    let penalty ← mnList.calcPenalty 66
    mnList.poSePunish entry.1.proTxHash penalty

def punishMembers (qc : FinalCommitment) (members : List DeterministicMN)
    (mnList : DeterministicMNList) : Run DeterministicMNList :=
  members.zipIdx.foldlM (punishMember qc) mnList

def removeSpent (l : DeterministicMNList) (prevout : OutPoint) : Run DeterministicMNList :=
  match l.getMNByCollateral prevout with
  | some dmn => if dmn.collateralOutpoint = prevout then l.removeMN dmn.proTxHash else .ok l
  | none => .ok l

/-- The payee was determined by the previous list and might have disappeared. -/
def setLastPaid (nHeight : Int) (newList : DeterministicMNList) (payee : Option DeterministicMN) :
    Run DeterministicMNList :=
  match payee with
  | none => .ok newList
  | some payee =>
    match newList.getMN payee.proTxHash with
    | none => .ok newList
    | some dmn =>
      newList.updateMN payee.proTxHash { dmn.pdmnState with nLastPaidHeight := nHeight }

end DeterministicMNList

open DeterministicMNList

/-- A `uint32_t` read as an `int`. -/
def asInt32 (n : Nat) : Int := if n < 2 ^ 31 then n else n - 2 ^ 32

def quorumIndexOf (pindexPrev : BlockIndex) (qc : FinalCommitmentTxPayload) : Run BlockIndex := do
  let params ← env.consensus.getLLMQ qc.commitment.llmqType
  let quorumHeight := asInt32 (qc.nHeight - qc.nHeight % params.dkgInterval)
  let quorumIndex ← orDeny (pindexPrev.getAncestor quorumHeight) 100 .invalid "bad-qc-quorum-hash"
  denyIf (quorumIndex.getBlockHash ≠ qc.commitment.quorumHash) 100 .invalid "bad-qc-quorum-hash"
  return quorumIndex

section Manager
variable {m : Type → Type} [Monad m] [MonadLiftT (Except Stop) m]
  (getListForBlock : BlockIndex → m DeterministicMNList) (getUTXOCoin : OutPoint → Option TxOut)

def handleQuorumCommitment (qc : FinalCommitment) (pindexQuorum : BlockIndex)
    (mnList : DeterministicMNList) : m DeterministicMNList := do
  let members ← getAllQuorumMembers env getListForBlock qc.llmqType pindexQuorum
  liftM (mnList.punishMembers qc members)

def processQuorumCommitment (pindexPrev : BlockIndex) (newList : DeterministicMNList)
    (payload : Option FinalCommitmentTxPayload) : m DeterministicMNList := do
  let qc ← liftM (Run.demand .assertion payload)
  if qc.commitment.isNull then return newList
  else
    let quorumIndex ← liftM (quorumIndexOf env pindexPrev qc)
    handleQuorumCommitment env getListForBlock qc.commitment quorumIndex newList

def processTx (pindexPrev : BlockIndex) (newList : DeterministicMNList) (tx : Transaction) :
    m DeterministicMNList :=
  let nHeight : Int := pindexPrev.nHeight + 1
  if tx.nVersion ≠ 3 then pure newList
  else
    match tx.payload with
    | .providerRegister payload =>
      liftM (newList.processProRegTx getUTXOCoin nHeight tx payload)
    | .providerUpdateService payload => liftM (newList.processProUpServTx nHeight payload)
    | .providerUpdateRegistrar payload => liftM (newList.processProUpRegTx nHeight payload)
    | .providerUpdateRevoke payload => liftM (newList.processProUpRevTx nHeight payload)
    | .quorumCommitment payload =>
      processQuorumCommitment env getListForBlock pindexPrev newList payload
    | .normal | .coinbase _ | .unknown _ => pure newList

def Block.txs (block : Block) : List Transaction := block.vtx.drop 1

def Block.spent (block : Block) : List OutPoint := block.txs.flatMap (·.vin)

def buildNewListFromBlock (pindexPrev : BlockIndex) (block : Block) : m DeterministicMNList := do
  let nHeight : Int := pindexPrev.nHeight + 1
  let oldList ← getListForBlock pindexPrev
  let newList := { oldList with blockHash := 0, nHeight }
  let payee := oldList.getMNPayee
  let newList ← liftM (confirmMNs env pindexPrev oldList newList)
  let newList ← liftM newList.decreasePoSePenalties
  let newList ← block.txs.foldlM (processTx env getListForBlock getUTXOCoin pindexPrev) newList
  let newList ← liftM (block.spent.foldlM removeSpent newList)
  liftM (newList.setLastPaid nHeight payee)

end Manager
end Trivechain.Evo
