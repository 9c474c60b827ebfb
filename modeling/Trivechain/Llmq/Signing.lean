import Trivechain.Bls.BatchVerifier
import Trivechain.Llmq.Params
import Trivechain.Primitives.Transaction

/-!
# The signing manager

What the lock and share processing code asks of `CSigningManager`: the quorum that is
responsible for a request id, and whether a recovered signature is already known.
Digests are a function of what is written to the hash writer.
-/

namespace Trivechain

namespace Llmq
open Bls

abbrev NodeId := Nat

/-- A quorum of a mined commitment. Its public key is valid: that is checked before it is stored. -/
structure Quorum where
  quorumHash : Uint256
  quorumPublicKey : PubKey
deriving DecidableEq

structure RecoveredSig where
  llmqType : LLMQType
  quorumHash : Uint256
  id : Uint256
  msgHash : Uint256
  sig : Option Sig
deriving DecidableEq

structure SigningManager where
  hashWriter : List Nat → Uint256
  getActiveQuorumSet : LLMQType → Int → List Quorum
  hasRecoveredSig : LLMQType → Uint256 → Uint256 → Bool
  hasRecoveredSigForId : LLMQType → Uint256 → Bool

namespace SigningManager
variable (m : SigningManager)

/-- The quorum with the smallest score, the first one if there are several. -/
def selectQuorumForSigning (llmqType : LLMQType) (signHeight : Int) (selectionHash : Uint256) :
    Option Quorum :=
  (m.getActiveQuorumSet llmqType signHeight).argmin fun q =>
    m.hashWriter [llmqType.toNat, q.quorumHash, selectionHash]

/-- `CLLMQUtils::BuildSignHash` -/
def buildSignHash (llmqType : LLMQType) (quorumHash id msgHash : Uint256) : Uint256 :=
  m.hashWriter [llmqType.toNat, quorumHash, id, msgHash]

/-- `VerifyRecoveredSig`, where `verify` is `CBLSSignature::VerifyInsecure` on valid objects. -/
def verifyRecoveredSig (verify : PubKey → Uint256 → Sig → Bool) (llmqType : LLMQType)
    (signedAtHeight : Int) (id msgHash : Uint256) (sig : Option Sig) : Bool :=
  match m.selectQuorumForSigning llmqType signedAtHeight id with
  | none => false
  | some quorum =>
    sig.any (verify quorum.quorumPublicKey
      (m.buildSignHash llmqType quorum.quorumHash id msgHash))

lemma selectQuorumForSigning_eq_none {llmqType : LLMQType} {signHeight : Int}
    {selectionHash : Uint256} : m.selectQuorumForSigning llmqType signHeight selectionHash = none ↔
      m.getActiveQuorumSet llmqType signHeight = [] :=
  List.argmin_eq_none

end SigningManager
end Llmq
end Trivechain
