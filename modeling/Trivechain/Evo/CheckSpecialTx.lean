import Trivechain.Evo.ProviderTx

/-!
# Checks of special transactions

`CheckSpecialTx`, with the checks of coinbase payloads and of mined commitments. The check
of a commitment is only made above height 465000.
-/

namespace Trivechain.Evo
open Bls Llmq
open Run (denyIf orDeny dos)

def commitmentCheckHeight : Nat := 465000

variable [PropertyHash] [ChainHash] (env : Env)

/-- `CLLMQUtils::GetAllQuorumMembers`, which asks the masternode manager for a list. -/
def getAllQuorumMembers {m : Type → Type} [Monad m] [MonadLiftT (Except Stop) m]
    (getListForBlock : BlockIndex → m DeterministicMNList) (llmqType : LLMQType)
    (pindexQuorum : BlockIndex) : m (List DeterministicMN) := do
  let params ← liftM (env.consensus.getLLMQ llmqType)
  let allMns ← getListForBlock pindexQuorum
  return allMns.calculateQuorum env params.size (env.modifier llmqType pindexQuorum.getBlockHash)

def ChainView.ask (view : ChainView) (pindex : BlockIndex) : Run DeterministicMNList :=
  .ok (view.getListForBlock pindex)

def cbTxCurrentVersion : Nat := 2

def checkCbTx (view : ChainView) (pindexPrev : Option BlockIndex) (tx : Transaction) :
    Run Unit :=
  match tx.payload with
  | .coinbase payload => do
    denyIf (!tx.isCoinBase) 100 .invalid "bad-cbtx-invalid"
    let cbTx ← orDeny payload 100 .invalid "bad-cbtx-payload"
    denyIf (cbTx.nVersion = 0 ∨ cbTxCurrentVersion < cbTx.nVersion) 100 .invalid "bad-cbtx-version"
    denyIf (pindexPrev.any fun p => p.nHeight + 1 != cbTx.nHeight) 100 .invalid "bad-cbtx-height"
    denyIf (pindexPrev.any fun p => view.dip0008Active p && cbTx.nVersion < 2) 100 .invalid
      "bad-cbtx-version"
  | _ => dos 100 .invalid "bad-cbtx-type"

def checkLLMQCommitmentPayload (view : ChainView) (pindexPrev : BlockIndex)
    (payload : Option FinalCommitmentTxPayload) : Run Unit := do
  let qcTx ← orDeny payload 100 .invalid "bad-qc-payload"
  denyIf (qcTx.nVersion = 0 ∨ 1 < qcTx.nVersion) 100 .invalid "bad-qc-version"
  denyIf (qcTx.nHeight ≠ pindexPrev.nHeight + 1) 100 .invalid "bad-qc-height"
  let pindexQuorum ← orDeny (view.findBlock qcTx.commitment.quorumHash) 100 .invalid
    "bad-qc-quorum-hash"
  denyIf (some pindexQuorum ≠ pindexPrev.getAncestor pindexQuorum.nHeight) 100 .invalid
    "bad-qc-quorum-hash"
  let params ← orDeny (env.consensus.findLLMQ qcTx.commitment.llmqType) 100 .invalid "bad-qc-type"
  if qcTx.commitment.isNull then
    denyIf (!qcTx.commitment.verifyNull env) 100 .invalid "bad-qc-invalid-null"
  else
    let members ← getAllQuorumMembers env view.ask params.type pindexQuorum
    let valid ← qcTx.commitment.verify env members false
    denyIf (!valid) 100 .invalid "bad-qc-invalid"

def checkLLMQCommitment (view : ChainView) (pindexPrev : Option BlockIndex)
    (payload : Option FinalCommitmentTxPayload) : Run Unit := do
  let pindexPrev ← Run.demand .undefined pindexPrev
  if commitmentCheckHeight < pindexPrev.nHeight then
    checkLLMQCommitmentPayload env view pindexPrev payload

def checkByType (view : ChainView) (pindexPrev : Option BlockIndex) (tx : Transaction) :
    Run Unit :=
  match tx.payload with
  | .providerRegister _ => checkProRegTx env view pindexPrev tx
  | .providerUpdateService _ => checkProUpServTx env view pindexPrev tx
  | .providerUpdateRegistrar _ => checkProUpRegTx env view pindexPrev tx
  | .providerUpdateRevoke _ => checkProUpRevTx env view pindexPrev tx
  | .coinbase _ => checkCbTx view pindexPrev tx
  | .quorumCommitment payload => checkLLMQCommitment env view pindexPrev payload
  | .normal | .unknown _ => dos 10 .invalid "bad-tx-type-check"

def checkSpecialTx (view : ChainView) (pindexPrev : Option BlockIndex) (tx : Transaction) :
    Run Unit :=
  if tx.nVersion ≠ 3 ∨ tx.payload = .normal then .ok ()
  else if pindexPrev.any fun p => p.nHeight + 1 < env.consensus.DIP0003Height then
    dos 10 .invalid "bad-tx-type"
  else checkByType env view pindexPrev tx

lemma checkByType_of_checkSpecialTx {view : ChainView} {pindexPrev : Option BlockIndex}
    {tx : Transaction} (h : checkSpecialTx env view pindexPrev tx = .ok ())
    (hv : tx.nVersion = 3) (hn : tx.payload ≠ .normal) :
    checkByType env view pindexPrev tx = .ok () := by
  unfold checkSpecialTx at h
  rw [if_neg (by simp [hv, hn])] at h
  split_ifs at h
  · cases h
  · exact h

/-- All transactions of the block pass `CheckSpecialTx` on top of `pindexPrev`. -/
def ChecksPass (view : ChainView) (pindexPrev : BlockIndex) (block : Block) : Prop :=
  ∀ tx ∈ block.vtx, checkSpecialTx env view (some pindexPrev) tx = .ok ()

instance (view : ChainView) (pindexPrev : BlockIndex) (block : Block) :
    Decidable (ChecksPass env view pindexPrev block) :=
  inferInstanceAs (Decidable (∀ tx ∈ block.vtx, _))

end Trivechain.Evo
