import Trivechain.Evo.Selection

/-!
# Final commitments

`CFinalCommitment` and its checks. The bitsets are as long as the sender made them, and
reading past their end is a fault.
-/

namespace Trivechain.Llmq
open Bls Evo List

structure FinalCommitment where
  nVersion : Nat := 1
  llmqType : LLMQType := LLMQ_NONE
  quorumHash : Uint256 := 0
  signers : List Bool := []
  validMembers : List Bool := []
  quorumPublicKey : Option PubKey := none
  quorumVvecHash : Uint256 := 0
  quorumSig : Option Sig := none
  membersSig : Option Sig := none
deriving DecidableEq

structure FinalCommitmentTxPayload where
  nVersion : Nat := 1
  nHeight : Nat := 0xffffffff
  commitment : FinalCommitment
deriving DecidableEq

def bitAt (bits : List Bool) (i : Nat) : Run Bool := Run.demand .undefined bits[i]?

namespace FinalCommitment

def CURRENT_VERSION : Nat := 1

variable (qc : FinalCommitment) (env : Env)

def countSigners : Nat := qc.signers.count true

def countValidMembers : Nat := qc.validMembers.count true

def isNull : Bool :=
  !(qc.signers.contains true || qc.validMembers.contains true) &&
  !(qc.quorumPublicKey.isSome || qc.quorumVvecHash != 0 || qc.membersSig.isSome ||
    qc.quorumSig.isSome)

def verifySizes (params : LLMQParams) : Bool :=
  qc.signers.length == params.size && qc.validMembers.length == params.size

/-- The bits past the members, from `i` on, are not set. -/
def restUnset (params : LLMQParams) (i : Nat) : Run Bool :=
  (range' i (params.size - i)).foldlM (fun ok i => do
    if !ok then return false
    if ← bitAt qc.validMembers i then return false
    if ← bitAt qc.signers i then return false
    return true) true

def signersKeys (members : List DeterministicMN) : Run (List (Option PubKey)) := do
  let keys ← (range members.length).zip members |>.mapM fun (i, m) => do
    return if ← bitAt qc.signers i then [m.pdmnState.pubKeyOperator] else []
  return keys.flatten

def verifySigs (params : LLMQParams) (members : List DeterministicMN) : Run Bool := do
  let commitmentHash := env.buildCommitmentHash params.type qc.quorumHash qc.validMembers
    qc.quorumPublicKey qc.quorumVvecHash
  let memberPubKeys ← qc.signersKeys members
  if !(qc.membersSig.any fun s => env.verifySecureAggregated s memberPubKeys commitmentHash) then
    return false
  return verifyInsecure env.verify qc.quorumSig qc.quorumPublicKey commitmentHash

/-- `CFinalCommitment::Verify` -/
def verify (members : List DeterministicMN) (checkSigs : Bool) : Run Bool := do
  if qc.nVersion = 0 ∨ CURRENT_VERSION < qc.nVersion then return false
  match env.consensus.findLLMQ qc.llmqType with
  | none => return false
  | some params =>
    if !qc.verifySizes params then return false
    if qc.countValidMembers < params.minSize then return false
    if qc.countSigners < params.minSize then return false
    if qc.quorumPublicKey.isNone then return false
    if qc.quorumVvecHash = 0 then return false
    if qc.membersSig.isNone then return false
    if qc.quorumSig.isNone then return false
    if !(← qc.restUnset params members.length) then return false
    if checkSigs then qc.verifySigs env params members else return true

def verifyNull : Bool :=
  match env.consensus.findLLMQ qc.llmqType with
  | none => false
  | some params => qc.isNull && qc.verifySizes params

lemma of_verify {members : List DeterministicMN} {checkSigs : Bool}
    (h : qc.verify env members checkSigs = .ok true) :
    ∃ params, env.consensus.findLLMQ qc.llmqType = some params ∧
      qc.validMembers.length = params.size := by
  unfold verify at h
  by_cases hv : qc.nVersion = 0 ∨ CURRENT_VERSION < qc.nVersion
  · simp [hv] at h
  rw [if_neg hv] at h
  cases hp : env.consensus.findLLMQ qc.llmqType with
  | none => simp [hp] at h
  | some params =>
    simp only [hp] at h
    by_cases hs : qc.verifySizes params
    · simp only [verifySizes, Bool.and_eq_true, beq_iff_eq] at hs
      exact ⟨params, rfl, hs.2⟩
    · simp [hs] at h

lemma signersKeys_ok {members : List DeterministicMN}
    (h : members.length ≤ qc.signers.length) : ∃ keys, qc.signersKeys members = .ok keys := by
  have hr : ∀ p ∈ (range members.length).zip members,
      (do return if ← bitAt qc.signers p.1 then [p.2.pdmnState.pubKeyOperator] else []) =
        (.ok (if qc.signers.getD p.1 false then [p.2.pdmnState.pubKeyOperator] else []) :
          Run (List (Option PubKey))) := by
    intro p hp
    have hl : p.1 < qc.signers.length := (mem_range.1 (of_mem_zip hp).1).trans_le h
    simp [bitAt, Run.demand, hl]
  rw [signersKeys, Run.mapM_eq_ok hr]
  exact ⟨_, rfl⟩

end FinalCommitment
end Trivechain.Llmq
