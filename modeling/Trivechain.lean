import Trivechain.Arith.Compact
import Trivechain.Bls.ContributionVerifier
import Trivechain.Consensus.Merkle
import Trivechain.Db.TransactionIterator
import Trivechain.Evo.CommitmentSafety
import Trivechain.Evo.Punishment
import Trivechain.Evo.UndoSpecialTxs
import Trivechain.ExclusiveSend.MixedValues
import Trivechain.ExclusiveSend.Timeouts
import Trivechain.Governance.OrphanVotes
import Trivechain.Governance.Triggers
import Trivechain.Governance.VotingKeys
import Trivechain.InstantX.VoteRuns
import Trivechain.Llmq.ChainLockSafety
import Trivechain.Llmq.Connections
import Trivechain.Llmq.DkgSessionHandler
import Trivechain.Llmq.FinalizeCommitments
import Trivechain.Llmq.LockRuns
import Trivechain.Llmq.MinedCache
import Trivechain.Llmq.Mining
import Trivechain.Llmq.NonLockedTxs
import Trivechain.Llmq.SigningRuns
import Trivechain.Mempool.PackageRuns
import Trivechain.Mempool.ProTxConflicts
import Trivechain.Serialize.Amount
import Trivechain.Serialize.BitSet
import Trivechain.Spork.Convergence
import Trivechain.Validation.IndexRuns
import Trivechain.Validation.SpecialTxs
