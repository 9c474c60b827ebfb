import Trivechain.Lib.Run

/-!
# Quorum parameters

The long-living masternode quorum types and the consensus parameters of the networks
that concern them and the deterministic masternode list.
-/

namespace Trivechain

namespace Llmq

/-- `Consensus::LLMQType`. The wire carries any byte. -/
abbrev LLMQType := UInt8

def LLMQ_NONE : LLMQType := 0xff
def LLMQ_5_60 : LLMQType := 1
def LLMQ_40_60 : LLMQType := 2
def LLMQ_40_85 : LLMQType := 3

structure LLMQParams where
  type : LLMQType
  size : Nat
  minSize : Nat
  threshold : Nat
  dkgInterval : Nat
  dkgPhaseBlocks : Nat
  dkgMiningWindowStart : Nat
  dkgMiningWindowEnd : Nat
  dkgBadVotesThreshold : Nat
  signingActiveQuorumCount : Nat
  keepOldConnections : Nat
deriving DecidableEq, Repr

def llmq5_60 : LLMQParams where
  type := LLMQ_5_60
  size := 5
  minSize := 4
  threshold := 3
  dkgInterval := 60
  dkgPhaseBlocks := 5
  dkgMiningWindowStart := 25
  dkgMiningWindowEnd := 45
  dkgBadVotesThreshold := 4
  signingActiveQuorumCount := 24
  keepOldConnections := 25

def llmq40_60 : LLMQParams where
  type := LLMQ_40_60
  size := 40
  minSize := 30
  threshold := 24
  dkgInterval := 60 * 12
  dkgPhaseBlocks := 10
  dkgMiningWindowStart := 50
  dkgMiningWindowEnd := 70
  dkgBadVotesThreshold := 30
  signingActiveQuorumCount := 4
  keepOldConnections := 5

def llmq40_85 : LLMQParams where
  type := LLMQ_40_85
  size := 40
  minSize := 35
  threshold := 34
  dkgInterval := 60 * 24
  dkgPhaseBlocks := 10
  dkgMiningWindowStart := 50
  dkgMiningWindowEnd := 120
  dkgBadVotesThreshold := 300
  signingActiveQuorumCount := 4
  keepOldConnections := 5

end Llmq

/-- The part of `Consensus::Params` that is read here. -/
structure ConsensusParams where
  llmqs : List Llmq.LLMQParams
  nMasternodeMinimumConfirmations : Nat
  DIP0003Height : Nat
  DIP0003EnforcementHeight : Nat
  DIP0003EnforcementHash : Nat
  /-- `LLMQ_NONE` is not a type that quorums can have. -/
  type_ne_none : ∀ q ∈ llmqs, q.type ≠ Llmq.LLMQ_NONE := by decide

namespace ConsensusParams

def findLLMQ (p : ConsensusParams) (type : Llmq.LLMQType) : Option Llmq.LLMQParams :=
  p.llmqs.find? fun q => q.type == type

def getLLMQ (p : ConsensusParams) (type : Llmq.LLMQType) : Run Llmq.LLMQParams :=
  Run.demand .outOfRange (p.findLLMQ type)

lemma findLLMQ_none (p : ConsensusParams) : p.findLLMQ Llmq.LLMQ_NONE = none := by
  refine List.find?_eq_none.2 fun q hq => ?_
  simpa using p.type_ne_none q hq

def main : ConsensusParams where
  llmqs := [Llmq.llmq5_60, Llmq.llmq40_60, Llmq.llmq40_85]
  nMasternodeMinimumConfirmations := 1
  DIP0003Height := 445500
  DIP0003EnforcementHeight := 450000
  DIP0003EnforcementHash := 0x0000000003283dab0bc51f7616666e7885b58cdbb619221faebcb55b5fe7c46a

def testNet : ConsensusParams where
  llmqs := [Llmq.llmq5_60, Llmq.llmq40_60, Llmq.llmq40_85]
  nMasternodeMinimumConfirmations := 1
  DIP0003Height := 1
  DIP0003EnforcementHeight := 1
  DIP0003EnforcementHash := 0

def devNet : ConsensusParams where
  llmqs := [Llmq.llmq5_60, Llmq.llmq40_60, Llmq.llmq40_85]
  nMasternodeMinimumConfirmations := 1
  DIP0003Height := 2
  DIP0003EnforcementHeight := 2
  DIP0003EnforcementHash := 0

def regTest : ConsensusParams where
  llmqs := [Llmq.llmq5_60]
  nMasternodeMinimumConfirmations := 1
  DIP0003Height := 432
  DIP0003EnforcementHeight := 500
  DIP0003EnforcementHash := 0

def networks : List ConsensusParams := [main, testNet, devNet, regTest]

end ConsensusParams
end Trivechain
