import Trivechain.Evo.SpecialTx

/-!
# Transaction locks by votes

`CDirectSend` collects votes of masternodes for the inputs of a transaction. A lock candidate has an
outpoint lock for every input; votes for an unknown transaction wait as orphans. `mapVotedOutpoints`
tells for which transactions an outpoint was voted.

`Vote` works on a copy of the candidate: what it adds is not in the stored candidate.
`UpdateVotedOutpoints` takes any outpoint, also one that is not an input of the transaction.
-/

namespace Trivechain.InstantX
open Evo
open Std (ExtTreeMap ExtTreeSet)

structure TxLockVote where
  txHash : Uint256
  outpoint : OutPoint
  outpointMasternode : OutPoint
  quorumModifierHash : Uint256
  masternodeProTxHash : Uint256
  vchMasternodeSignature : List Nat := []
  nConfirmedHeight : Int := -1
  nTimeCreated : Int
deriving DecidableEq

structure OutPointLock where
  outpoint : OutPoint
  mapMasternodeVotes : ExtTreeMap OutPoint TxLockVote := ∅
  fAttacked : Bool := false

/-- A request without a transaction is `none`. -/
structure TxLockCandidate where
  nConfirmedHeight : Int := -1
  nTimeCreated : Int
  txLockRequest : Option Transaction
  mapOutPointLocks : ExtTreeMap OutPoint OutPointLock := ∅

structure DirectSend where
  nCachedBlockHeight : Int := 0
  mapLockRequestAccepted : ExtTreeMap Uint256 Transaction := ∅
  mapLockRequestRejected : ExtTreeMap Uint256 (Option Transaction) := ∅
  mapTxLockVotes : ExtTreeMap Uint256 TxLockVote := ∅
  mapTxLockVotesOrphan : ExtTreeMap Uint256 TxLockVote := ∅
  mapTxLockCandidates : ExtTreeMap Uint256 TxLockCandidate := ∅
  mapVotedOutpoints : ExtTreeMap OutPoint (ExtTreeSet Uint256) := ∅
  mapLockedOutpoints : ExtTreeMap OutPoint Uint256 := ∅
  mapMasternodeOrphanVotes : ExtTreeMap OutPoint Int := ∅

def DIRECTSEND_LOCK_TIMEOUT_SECONDS : Int := 15
def DIRECTSEND_FAILED_TIMEOUT_SECONDS : Int := 60

structure VoteParams where
  /-- The hash leaves the signature out. -/
  voteHash : Uint256 → OutPoint → OutPoint → Uint256 → Uint256 → Uint256
  nDirectSendConfirmationsRequired : Int
  nDirectSendSigsRequired : Int
  nDirectSendSigsTotal : Int
  nDirectSendKeepLock : Int

structure VoteContext where
  now : Int
  fLiteMode : Bool := false
  fMasternodeMode : Bool := true
  isOldDirectSendEnabled : Bool := true
  isBlockchainSynced : Bool := true
  /-- Locks are enabled, there is no fork, and locked blocks are filtered. -/
  locksShown : Bool := true
  /-- `activeMasternodeInfo` -/
  outpoint : OutPoint
  proTxHash : Uint256
  getUTXOHeight : OutPoint → Option Int
  getMasternodeRank : OutPoint → Int → Option (Int × Uint256)
  /-- A signature that can be verified. -/
  sign : TxLockVote → Option (List Nat)
  isValidVote : TxLockVote → Bool
  isValidRequest : Transaction → Bool
  mempoolSpender : OutPoint → Option Uint256
  isInBlock : Uint256 → Bool

namespace TxLockVote
variable (vote : TxLockVote)

def getHash (p : VoteParams) : Uint256 :=
  p.voteHash vote.txHash vote.outpoint vote.outpointMasternode vote.quorumModifierHash
    vote.masternodeProTxHash

def isExpired (p : VoteParams) (nHeight : Int) : Bool :=
  vote.nConfirmedHeight ≠ -1 && nHeight - vote.nConfirmedHeight > p.nDirectSendKeepLock

def isTimedOut (now : Int) : Bool := now - vote.nTimeCreated > DIRECTSEND_LOCK_TIMEOUT_SECONDS

end TxLockVote

namespace OutPointLock
variable (lock : OutPointLock)

def addVote (vote : TxLockVote) : OutPointLock :=
  { lock with
    mapMasternodeVotes := lock.mapMasternodeVotes.insertIfNew vote.outpointMasternode vote }

def hasMasternodeVoted (outpointMasternode : OutPoint) : Bool :=
  lock.mapMasternodeVotes[outpointMasternode]?.isSome

def countVotes : Int := if lock.fAttacked then 0 else lock.mapMasternodeVotes.size

def isReady (p : VoteParams) : Bool :=
  !lock.fAttacked && lock.countVotes ≥ p.nDirectSendSigsRequired

end OutPointLock

namespace TxLockCandidate
variable (c : TxLockCandidate)

def getHash [ChainHash] : Uint256 := (c.txLockRequest.map Transaction.getHash).getD 0

def addOutPointLock (outpoint : OutPoint) : TxLockCandidate :=
  { c with mapOutPointLocks := c.mapOutPointLocks.insertIfNew outpoint { outpoint } }

def addOutPointLocks (vin : List OutPoint) : TxLockCandidate := vin.foldl addOutPointLock c

def modifyLock (outpoint : OutPoint) (f : OutPointLock → OutPointLock) : TxLockCandidate :=
  match c.mapOutPointLocks[outpoint]? with
  | none => c
  | some lock => { c with mapOutPointLocks := c.mapOutPointLocks.insert outpoint (f lock) }

def markOutpointAsAttacked (outpoint : OutPoint) : TxLockCandidate :=
  c.modifyLock outpoint fun lock => { lock with fAttacked := true }

def hasMasternodeVoted (outpoint outpointMasternode : OutPoint) : Bool :=
  match c.mapOutPointLocks[outpoint]? with
  | none => false
  | some lock => lock.hasMasternodeVoted outpointMasternode

def takesVote (vote : TxLockVote) : Bool :=
  match c.mapOutPointLocks[vote.outpoint]? with
  | none => false
  | some lock => !lock.hasMasternodeVoted vote.outpointMasternode

def addVote (vote : TxLockVote) : TxLockCandidate := c.modifyLock vote.outpoint (·.addVote vote)

def isAllOutPointsReady (p : VoteParams) : Bool :=
  !c.mapOutPointLocks.isEmpty && c.mapOutPointLocks.toList.all fun e => e.2.isReady p

def isExpired (p : VoteParams) (nHeight : Int) : Bool :=
  c.nConfirmedHeight ≠ -1 && nHeight - c.nConfirmedHeight > p.nDirectSendKeepLock

def isTimedOut (now : Int) : Bool := now - c.nTimeCreated > DIRECTSEND_LOCK_TIMEOUT_SECONDS

end TxLockCandidate

namespace DirectSend
variable (p : VoteParams) (ctx : VoteContext) (s : DirectSend)

def modifyCandidate (hash : Uint256) (f : TxLockCandidate → TxLockCandidate) : DirectSend :=
  match s.mapTxLockCandidates[hash]? with
  | none => s
  | some c => { s with mapTxLockCandidates := s.mapTxLockCandidates.insert hash (f c) }

def isLockedDirectSendTransaction (txHash : Uint256) : Bool :=
  ctx.locksShown &&
    match s.mapTxLockCandidates[txHash]? with
    | none => false
    | some c => !c.mapOutPointLocks.isEmpty &&
        c.mapOutPointLocks.keys.all fun o => s.mapLockedOutpoints[o]? = some txHash

def removeCandidate [ChainHash] (hash : Uint256) (c : TxLockCandidate) : DirectSend :=
  { s with
    mapLockedOutpoints := c.mapOutPointLocks.keys.foldl (fun m o => m.erase o) s.mapLockedOutpoints
    mapVotedOutpoints := c.mapOutPointLocks.keys.foldl (fun m o => m.erase o) s.mapVotedOutpoints
    mapLockRequestAccepted := s.mapLockRequestAccepted.erase c.getHash
    mapLockRequestRejected := s.mapLockRequestRejected.erase c.getHash
    mapTxLockCandidates := s.mapTxLockCandidates.erase hash }

def removeExpiredCandidates [ChainHash] : DirectSend :=
  s.mapTxLockCandidates.toList.foldl
    (fun s e => if e.2.isExpired p s.nCachedBlockHeight then s.removeCandidate e.1 e.2 else s) s

def removeOldVotes : DirectSend :=
  let votes := s.mapTxLockVotes.filter fun _ vote => !vote.isExpired p s.nCachedBlockHeight
  let timedOut := s.mapTxLockVotesOrphan.toList.filter fun e => e.2.isTimedOut ctx.now
  let votes := timedOut.foldl (fun m e => m.erase e.1) votes
  let isFailed := fun vote : TxLockVote =>
    ctx.now - vote.nTimeCreated > DIRECTSEND_FAILED_TIMEOUT_SECONDS &&
      !s.isLockedDirectSendTransaction ctx vote.txHash
  { s with
    mapTxLockVotes := votes.filter fun _ vote => !isFailed vote
    mapTxLockVotesOrphan := s.mapTxLockVotesOrphan.filter fun _ vote => !vote.isTimedOut ctx.now
    mapMasternodeOrphanVotes := s.mapMasternodeOrphanVotes.filter fun _ time => !(time < ctx.now) }

def checkAndRemove [ChainHash] : DirectSend :=
  if !ctx.isBlockchainSynced then s else (s.removeExpiredCandidates p).removeOldVotes p ctx

/-- Two complete locks for one outpoint: both are dropped. -/
def dropBoth [ChainHash] (txHash hashConflicting : Uint256) : DirectSend :=
  match s.mapTxLockCandidates[txHash]?, s.mapTxLockCandidates[hashConflicting]? with
  | some c, some cConflicting =>
    let expire := fun c : TxLockCandidate => { c with nConfirmedHeight := 0 }
    let s := (s.modifyCandidate txHash expire).modifyCandidate hashConflicting expire
    let s := s.checkAndRemove p ctx
    { s with
      mapLockRequestRejected := (s.mapLockRequestRejected.insertIfNew txHash
        c.txLockRequest).insertIfNew hashConflicting cConflicting.txLockRequest }
  | _, _ => s

def conflictsWithMempool (txHash : Uint256) (o : OutPoint) : Bool :=
  match ctx.mempoolSpender o with
  | none => false
  | some spender => txHash ≠ spender

/-- The loop over the inputs in `ResolveConflicts`: the state in which it returns, if it does. -/
def resolveInput [ChainHash] (txHash : Uint256) (o : OutPoint) : Option DirectSend :=
  match s.mapLockedOutpoints[o]? with
  | none => if conflictsWithMempool ctx txHash o then some s else none
  | some hashConflicting =>
    if txHash ≠ hashConflicting then some (s.dropBoth p ctx txHash hashConflicting)
    else if conflictsWithMempool ctx txHash o then some s else none

def resolveConflicts [ChainHash] (c : TxLockCandidate) : Bool × DirectSend :=
  let vin := (c.txLockRequest.map Transaction.vin).getD []
  if !c.isAllOutPointsReady p then (false, s)
  else match vin.findSome? (s.resolveInput p ctx c.getHash) with
    | some s => (false, s)
    | none => (ctx.isInBlock c.getHash || vin.all fun o => (ctx.getUTXOHeight o).isSome, s)

def lockTransactionInputs [ChainHash] (c : TxLockCandidate) : DirectSend :=
  if !ctx.isOldDirectSendEnabled || !c.isAllOutPointsReady p then s
  else { s with
    mapLockedOutpoints := c.mapOutPointLocks.keys.foldl (fun m o => m.insertIfNew o c.getHash)
      s.mapLockedOutpoints }

def tryToFinalizeLockCandidate [ChainHash] (c : TxLockCandidate) : DirectSend :=
  if ctx.isOldDirectSendEnabled && c.isAllOutPointsReady p &&
      !s.isLockedDirectSendTransaction ctx c.getHash then
    match s.resolveConflicts p ctx c with
    | (true, s) => s.lockTransactionInputs p ctx c
    | (false, s) => s
  else s

/-- A masternode that voted for two transactions: the outpoint is attacked in both. -/
def markConflicting (vote : TxLockVote) (hash : Uint256) : DirectSend :=
  match s.mapTxLockCandidates[hash]? with
  | none => s
  | some c =>
    if hash ≠ vote.txHash ∧ c.hasMasternodeVoted vote.outpoint vote.outpointMasternode then
      (s.modifyCandidate vote.txHash (·.markOutpointAsAttacked vote.outpoint)).modifyCandidate hash
        (·.markOutpointAsAttacked vote.outpoint)
    else s

/-- Nothing is asked about the outpoint of the vote. -/
def updateVotedOutpoints (vote : TxLockVote) : DirectSend :=
  match s.mapVotedOutpoints[vote.outpoint]? with
  | some hashes =>
    let s := hashes.toList.foldl (fun s hash => s.markConflicting vote hash) s
    { s with
      mapVotedOutpoints := s.mapVotedOutpoints.insert vote.outpoint (hashes.insert vote.txHash) }
  | none =>
    { s with mapVotedOutpoints :=
        s.mapVotedOutpoints.insert vote.outpoint (ExtTreeSet.empty.insert vote.txHash) }

/-- The part that new votes and orphan votes have in common, for a candidate with a request. -/
def addVote (vote : TxLockVote) : Bool × DirectSend :=
  let s := s.updateVotedOutpoints vote
  match s.mapTxLockCandidates[vote.txHash]? with
  | none => (false, s)
  | some c => (c.takesVote vote, s.modifyCandidate vote.txHash (·.addVote vote))

def createEmptyTxLockCandidate (txHash : Uint256) : DirectSend :=
  let c : TxLockCandidate := { nTimeCreated := ctx.now, txLockRequest := none }
  { s with mapTxLockCandidates := s.mapTxLockCandidates.insertIfNew txHash c }

def getAverageMasternodeOrphanVoteTime : Int :=
  if s.mapMasternodeOrphanVotes.isEmpty then 0
  else (s.mapMasternodeOrphanVotes.toList.map Prod.snd).sum / s.mapMasternodeOrphanVotes.size

def addOrphanVote (vote : TxLockVote) : Bool × DirectSend :=
  let s := s.createEmptyTxLockCandidate ctx vote.txHash
  let s := { s with
    mapTxLockVotesOrphan := s.mapTxLockVotesOrphan.insertIfNew (vote.getHash p) vote }
  let refreshed := { s with mapMasternodeOrphanVotes :=
    s.mapMasternodeOrphanVotes.insert vote.outpointMasternode (ctx.now + 60 * 10) }
  match s.mapMasternodeOrphanVotes[vote.outpointMasternode]? with
  | none => (true, refreshed)
  | some time =>
    if time > ctx.now ∧ time > s.getAverageMasternodeOrphanVoteTime then (false, s)
    else (true, refreshed)

def processNewTxLockVote [ChainHash] (vote : TxLockVote) : Bool × DirectSend :=
  if !ctx.isValidVote vote then (false, s)
  else match s.mapTxLockCandidates[vote.txHash]? with
    | none => s.addOrphanVote p ctx vote
    | some c =>
      if c.txLockRequest.isNone then s.addOrphanVote p ctx vote
      else if c.isTimedOut ctx.now then (false, s)
      else match s.addVote vote with
        | (false, s) => (false, s)
        | (true, s) =>
          match s.mapTxLockCandidates[vote.txHash]? with
          | none => (true, s)
          | some c => (true, s.tryToFinalizeLockCandidate p ctx c)

def processOrphanTxLockVote (vote : TxLockVote) : Bool × DirectSend :=
  match s.mapTxLockCandidates[vote.txHash]? with
  | none => (false, s)
  | some c =>
    if c.txLockRequest.isNone || c.isTimedOut ctx.now then (false, s) else s.addVote vote

def takeOrphan (e : Uint256 × TxLockVote) : DirectSend :=
  match s.processOrphanTxLockVote ctx e.2 with
  | (true, s) => { s with mapTxLockVotesOrphan := s.mapTxLockVotesOrphan.erase e.1 }
  | (false, s) => s

def processOrphanTxLockVotes : DirectSend :=
  s.mapTxLockVotesOrphan.toList.foldl (fun s e => s.takeOrphan ctx e) s

def processMessage [ChainHash] (vote : TxLockVote) : DirectSend :=
  let vote := { vote with nConfirmedHeight := -1, nTimeCreated := ctx.now }
  if ctx.fLiteMode || !ctx.isOldDirectSendEnabled || !ctx.isBlockchainSynced then s
  else if s.mapTxLockVotes[vote.getHash p]?.isSome then s
  else ({ s with mapTxLockVotes := s.mapTxLockVotes.insert (vote.getHash p) vote
    }.processNewTxLockVote p ctx vote).2

def createTxLockCandidate [ChainHash] (tx : Transaction) : Bool × DirectSend :=
  let put := fun c => { s with mapTxLockCandidates := s.mapTxLockCandidates.insert tx.getHash c }
  if !ctx.isValidRequest tx then (false, s)
  else match s.mapTxLockCandidates[tx.getHash]? with
    | none =>
      let c : TxLockCandidate := { nTimeCreated := ctx.now, txLockRequest := some tx }
      (true, put (c.addOutPointLocks tx.vin))
    | some c =>
      if c.txLockRequest.isNone then
        -- a candidate that timed out gets its request and no locks
        let c := { c with txLockRequest := some tx }
        if c.isTimedOut ctx.now then (false, put c) else (true, put (c.addOutPointLocks tx.vin))
      else (true, s)

def processTxLockRequest [ChainHash] (tx : Transaction) : Bool × DirectSend :=
  match s.createTxLockCandidate ctx tx with
  | (false, s) => (false, s)
  | (true, s) =>
    let s := s.processOrphanTxLockVotes ctx
    -- the candidate that was just created is found again
    match s.mapTxLockCandidates[tx.getHash]? with
    | none => (true, s)
    | some c => (true, s.tryToFinalizeLockCandidate p ctx c)

def acceptLockRequest [ChainHash] (tx : Transaction) : DirectSend :=
  { s with mapLockRequestAccepted := s.mapLockRequestAccepted.insertIfNew tx.getHash tx }

def rejectLockRequest [ChainHash] (tx : Transaction) : DirectSend :=
  { s with mapLockRequestRejected := s.mapLockRequestRejected.insertIfNew tx.getHash tx }

/-- Was the outpoint voted for by this masternode in one of the transactions? Their candidates are
looked up in order. -/
def alreadyVoted (o : OutPoint) : List Uint256 → Run Bool
  | [] => .ok false
  | hash :: hashes => do
    let c ← Run.demand .undefined s.mapTxLockCandidates[hash]?
    if c.hasMasternodeVoted o ctx.outpoint then .ok true else alreadyVoted o hashes

/-- The variables of the loop in `Vote`: the candidate is a copy. -/
structure Voting where
  s : DirectSend
  c : TxLockCandidate
  relayed : List TxLockVote := []

def Voting.addVote (v : Voting) (vote : TxLockVote) : Voting :=
  let s := { v.s with mapTxLockVotes := v.s.mapTxLockVotes.insertIfNew (vote.getHash p) vote }
  if v.c.takesVote vote then
    let hashes := (s.mapVotedOutpoints[vote.outpoint]?.getD ∅).insert vote.txHash
    { s := { s with mapVotedOutpoints := s.mapVotedOutpoints.insert vote.outpoint hashes }
      c := v.c.addVote vote
      relayed := v.relayed ++ [vote] }
  else { v with s }

/-- One round of the loop; the flag tells whether the function goes on. -/
def voteFor (txHash : Uint256) (v : Voting) (o : OutPoint) : Run (Bool × Voting) :=
  match ctx.getUTXOHeight o with
  | none => .ok (false, v)
  | some nPrevoutHeight =>
    match ctx.getMasternodeRank ctx.outpoint
        (nPrevoutHeight + p.nDirectSendConfirmationsRequired - 2) with
    | none => .ok (true, v)
    | some (nRank, quorumModifierHash) =>
      if nRank > p.nDirectSendSigsTotal then .ok (true, v)
      else do
        let voted ← v.s.alreadyVoted ctx o (v.s.mapVotedOutpoints[o]?.getD ∅).toList
        if voted then .ok (true, v)
        else
          let vote : TxLockVote :=
            { txHash, outpoint := o, outpointMasternode := ctx.outpoint, quorumModifierHash
              masternodeProTxHash := ctx.proTxHash, nTimeCreated := ctx.now }
          match ctx.sign vote with
          | none => .ok (false, v)
          | some sig => .ok (true, v.addVote p { vote with vchMasternodeSignature := sig })

def voteLoop (txHash : Uint256) : List OutPoint → Voting → Run Voting
  | [], v => .ok v
  | o :: os, v => do
    let (goOn, v) ← voteFor p ctx txHash v o
    if goOn then voteLoop txHash os v else .ok v

/-- `Vote(CTxLockCandidate&)` -/
def voteCandidate [ChainHash] (c : TxLockCandidate) : Run Voting :=
  if !ctx.fMasternodeMode || !ctx.isOldDirectSendEnabled then .ok { s, c }
  else if s.mapLockRequestAccepted[c.getHash]?.isNone then .ok { s, c }
  else voteLoop p ctx c.getHash c.mapOutPointLocks.keys { s, c }

/-- `Vote(const uint256&)`, with the relayed votes. The copy of the candidate is finalized. -/
def vote [ChainHash] (txHash : Uint256) : Run (DirectSend × List TxLockVote) :=
  match s.mapTxLockCandidates[txHash]? with
  | none => .ok (s, [])
  | some c => do
    let v ← s.voteCandidate p ctx c
    .ok (v.s.tryToFinalizeLockCandidate p ctx v.c, v.relayed)

def updatedBlockTip (nHeight : Int) : DirectSend := { s with nCachedBlockHeight := nHeight }

/-- `mapTxLockVotes[hash].SetConfirmedHeight(nHeight)` -/
def confirmVote (hash : Uint256) (nHeight : Int) : DirectSend :=
  let vote : TxLockVote := s.mapTxLockVotes[hash]?.getD
    { txHash := 0, outpoint := .null, outpointMasternode := .null, quorumModifierHash := 0
      masternodeProTxHash := 0, nTimeCreated := ctx.now }
  { s with
    mapTxLockVotes := s.mapTxLockVotes.insert hash { vote with nConfirmedHeight := nHeight } }

def confirmCandidate (hash : Uint256) (nHeight : Int) : DirectSend :=
  match s.mapTxLockCandidates[hash]? with
  | none => s
  | some c =>
    let votes := (c.mapOutPointLocks.toList.map fun e => e.2.mapMasternodeVotes.toList).flatten
    votes.foldl
      (fun s e =>
        if s.mapTxLockVotes[e.2.getHash p]?.isSome then s.confirmVote ctx (e.2.getHash p) nHeight
        else s)
      (s.modifyCandidate hash fun c => { c with nConfirmedHeight := nHeight })

def confirmOrphans (hash : Uint256) (nHeight : Int) : DirectSend :=
  s.mapTxLockVotesOrphan.toList.foldl
    (fun s e => if e.2.txHash = hash then s.confirmVote ctx e.1 nHeight else s) s

/-- The height is `none` for a transaction that is not in a block. -/
def syncTransaction [ChainHash] (tx : Transaction) (nHeight : Option Int) : DirectSend :=
  if tx.isCoinBase then s
  else (s.confirmCandidate p ctx tx.getHash (nHeight.getD (-1))).confirmOrphans ctx tx.getHash
    (nHeight.getD (-1))

def clear : DirectSend := {}

end DirectSend
end Trivechain.InstantX
