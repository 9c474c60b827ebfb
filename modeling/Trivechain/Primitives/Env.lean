import Trivechain.Llmq.Params
import Trivechain.Primitives.Transaction

/-!
# The environment of validation

The chain parameters and the uninterpreted primitives of validation: hash functions, signature
checks and the classification of addresses. Where a proof needs a hash function to be injective, the
function is a class of its own.
-/

namespace Trivechain
open Bls

inductive NetworkID where
  | main | test | dev | regTest
deriving DecidableEq, Repr

/-- `Params(CBaseChainParams::MAIN).GetDefaultPort()` -/
def mainnetDefaultPort : Nat := 9999

abbrev VchSig := List Nat

/-- What a `CProRegTx` of an external collateral is signed over. -/
structure SignString where
  payout : Script
  nOperatorReward : Nat
  keyIDOwner : KeyID
  keyIDVoting : KeyID
  hash : Uint256
deriving DecidableEq

structure Env where
  networkID : NetworkID
  consensus : ConsensusParams
  /-- One BLS signature under one key. -/
  verify : PubKey → Uint256 → Sig → Bool
  verifySecureAggregated : Sig → List (Option PubKey) → Uint256 → Bool
  /-- `CHashSigner::VerifyHash` -/
  verifyHash : Uint256 → KeyID → VchSig → Bool
  /-- `CMessageSigner::VerifyMessage` -/
  verifyMessage : KeyID → VchSig → SignString → Bool
  /-- `CSHA256` over two hashes. -/
  sha256 : Uint256 → Uint256 → Uint256
  /-- `SerializeHash` of a quorum type and a block hash. -/
  modifier : Llmq.LLMQType → Uint256 → Uint256
  /-- `CLLMQUtils::BuildCommitmentHash` -/
  buildCommitmentHash : Llmq.LLMQType → Uint256 → List Bool → Option PubKey → Uint256 → Uint256
  calcTxInputsHash : List OutPoint → Uint256
  addrIsValid : Service → Bool
  addrIsRoutable : Service → Bool
  addrIsIPv4 : Service → Bool

def Env.permissive (networkID : NetworkID) (consensus : ConsensusParams) : Env where
  networkID
  consensus
  verify _ _ _ := true
  verifySecureAggregated _ _ _ := true
  verifyHash _ _ _ := true
  verifyMessage _ _ _ := true
  sha256 a b := Nat.pair a b
  modifier type hash := Nat.pair type.toNat hash
  buildCommitmentHash _ quorumHash _ _ _ := quorumHash
  calcTxInputsHash _ := 0
  addrIsValid _ := true
  addrIsRoutable _ := true
  addrIsIPv4 _ := true

end Trivechain
