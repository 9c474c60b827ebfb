import Trivechain.Governance.Vote

/-!
# Governance objects

`CGovernanceObject` with its votes. `ProcessVote` makes room for the record of a masternode and for
the instance of a signal before it checks the vote, so a rejected vote can leave empty entries
behind, which count like missing ones.
-/

namespace Trivechain.Governance
open Bls Evo
open Std (ExtTreeMap)

def VOTE_OUTCOME_NONE : Nat := 0
def VOTE_OUTCOME_YES : Nat := 1
def VOTE_OUTCOME_NO : Nat := 2

def VOTE_SIGNAL_NONE : Nat := 0
def VOTE_SIGNAL_FUNDING : Nat := 1
def VOTE_SIGNAL_VALID : Nat := 2
def VOTE_SIGNAL_DELETE : Nat := 3
def VOTE_SIGNAL_ENDORSED : Nat := 4

def MAX_SUPPORTED_VOTE_SIGNAL : Nat := VOTE_SIGNAL_ENDORSED

def GOVERNANCE_OBJECT_PROPOSAL : Nat := 1
def GOVERNANCE_OBJECT_TRIGGER : Nat := 2

def GOVERNANCE_UPDATE_MIN : Int := 60 * 60
def GOVERNANCE_ORPHAN_EXPIRATION_TIME : Int := 10 * 60

inductive GovernanceExceptionType where
  | none | warning | permanentError | temporaryError
deriving DecidableEq, Repr

/-- `CGovernanceException`. The outpoints and hashes that follow in a message are left out. -/
structure GovernanceException where
  message : String
  type : GovernanceExceptionType
  nNodePenalty : Nat := 0
deriving DecidableEq, Repr

/-- `vote_instance_t` -/
structure VoteInstance where
  eOutcome : Nat := VOTE_OUTCOME_NONE
  nTime : Int := 0
  nCreationTime : Int := 0
deriving DecidableEq

/-- `vote_rec_t` -/
abbrev VoteRecord := ExtTreeMap Nat VoteInstance

structure GovernanceObject [VoteHash] where
  /-- `GetHash`, which covers what does not change. -/
  nHash : Uint256
  nObjectType : Nat
  nDeletionTime : Int := 0
  fCachedFunding : Bool := false
  fCachedValid : Bool := true
  fCachedDelete : Bool := false
  fCachedEndorsed : Bool := false
  fDirtyCache : Bool := true
  mapCurrentMNVotes : ExtTreeMap OutPoint VoteRecord := ∅
  cmmapOrphanVotes : CacheMultiMap OutPoint VoteTimePair VoteTimePair.lt := {}
  fileVotes : VoteFile := {}

structure GovernanceContext [VoteHash] where
  /-- `GetListAtChainTip` -/
  mnList : DeterministicMNList
  /-- `GetAdjustedTime` -/
  nNow : Int
  nGovernanceMinQuorum : Int
  checkKeyIDSignature : KeyID → GovernanceVote → Bool
  checkOperatorSignature : Option PubKey → GovernanceVote → Bool
  /-- `IsValidLocally` with the check of the collateral. -/
  isValidLocally : GovernanceObject → Bool
  /-- `CGovernanceTriggerManager::AddNewTrigger` -/
  addNewTrigger : Uint256 → Bool

variable [VoteHash] [PropertyHash] (ctx : GovernanceContext)

def GovernanceVote.isValid (vote : GovernanceVote) (useVotingKey : Bool) : Bool :=
  if ctx.nNow + 60 * 60 < vote.nTime then false
  else if (MAX_SUPPORTED_VOTE_SIGNAL : Int) < vote.nVoteSignal then false
  else if 3 < vote.nVoteOutcome then false
  else
    match ctx.mnList.getMNByCollateral vote.masternodeOutpoint with
    | none => false
    | some dmn =>
      if useVotingKey then ctx.checkKeyIDSignature dmn.pdmnState.keyIDVoting vote
      else ctx.checkOperatorSignature dmn.pdmnState.pubKeyOperator vote

/-- What `ProcessVote` leaves: the object, the exception of a rejected vote, and whether it was
reported as invalid. -/
structure VoteResult where
  object : GovernanceObject
  exception : Option GovernanceException := none
  invalidVote : Bool := false

def VoteResult.accepted (r : VoteResult) : Bool := r.exception.isNone

namespace GovernanceObject
variable (obj : GovernanceObject)

def voteInstance (o : OutPoint) (signal : Nat) : VoteInstance :=
  ((obj.mapCurrentMNVotes[o]?.getD ∅)[signal]?).getD {}

/-- `mapCurrentMNVotes.emplace(outpoint, vote_rec_t())` -/
def emplaceRecord (o : OutPoint) : GovernanceObject :=
  { obj with mapCurrentMNVotes := obj.mapCurrentMNVotes.insertIfNew o ∅ }

def setInstance (o : OutPoint) (signal : Nat) (i : VoteInstance) : GovernanceObject :=
  { obj with mapCurrentMNVotes :=
      obj.mapCurrentMNVotes.insert o ((obj.mapCurrentMNVotes[o]?.getD ∅).insert signal i) }

/-- `mapInstances.emplace(int(eSignal), vote_instance_t())` -/
def emplaceInstance (o : OutPoint) (signal : Nat) : GovernanceObject :=
  obj.setInstance o signal (obj.voteInstance o signal)

def reject (message : String) (type : GovernanceExceptionType) (nNodePenalty : Nat := 0) :
    VoteResult :=
  { object := obj, exception := some ⟨message, type, nNodePenalty⟩ }

/-- `fRateChecksEnabled` is `governance.AreRateChecksEnabled()`. -/
def processVote (fRateChecksEnabled : Bool) (vote : GovernanceVote) : VoteResult :=
  if obj.fileVotes.hasVote vote.getHash then
    obj.reject "CGovernanceObject::ProcessVote -- Already known valid vote" .none
  else
    let o := vote.masternodeOutpoint
    match ctx.mnList.getMNByCollateral o with
    | none =>
      let pair := (vote, ctx.nNow + GOVERNANCE_ORPHAN_EXPIRATION_TIME)
      { obj with cmmapOrphanVotes := (obj.cmmapOrphanVotes.insert o pair).1 }.reject
        "CGovernanceObject::ProcessVote -- Masternode not found" .warning
    | some _ =>
      let obj := obj.emplaceRecord o
      let eSignal := vote.getSignal
      if eSignal = VOTE_SIGNAL_NONE then
        obj.reject "CGovernanceObject::ProcessVote -- Vote signal: none" .warning
      else if MAX_SUPPORTED_VOTE_SIGNAL < eSignal then
        obj.reject "CGovernanceObject::ProcessVote -- Unsupported vote signal: " .permanentError 20
      else
        let obj := obj.emplaceInstance o eSignal
        let voteInstance := obj.voteInstance o eSignal
        if vote.nTime < voteInstance.nCreationTime then
          obj.reject "CGovernanceObject::ProcessVote -- Obsolete vote" .none
        else if vote.nTime = voteInstance.nCreationTime ∧
            vote.getOutcome < voteInstance.eOutcome then
          obj.reject ("CGovernanceObject::ProcessVote -- Invalid vote, " ++
            "same timestamp for the different outcome, rejected") .none
        else if fRateChecksEnabled ∧ ctx.nNow - voteInstance.nTime < GOVERNANCE_UPDATE_MIN then
          obj.reject "CGovernanceObject::ProcessVote -- Masternode voting too often"
            .temporaryError
        else if !vote.isValid ctx
            (obj.nObjectType = GOVERNANCE_OBJECT_PROPOSAL ∧ eSignal = VOTE_SIGNAL_FUNDING) then
          { obj.reject "CGovernanceObject::ProcessVote -- Invalid vote" .permanentError 20 with
            invalidVote := true }
        else
          let nVoteTimeUpdate := if fRateChecksEnabled then ctx.nNow else voteInstance.nTime
          { object :=
              { obj.setInstance o eSignal ⟨vote.getOutcome, nVoteTimeUpdate, vote.nTime⟩ with
                fileVotes := obj.fileVotes.addVote vote
                fDirtyCache := true } }

section Lemmas
variable {obj} {o o' : OutPoint} {signal signal' : Nat}

section

omit [PropertyHash]

@[simp] lemma voteInstance_emplaceRecord :
    (obj.emplaceRecord o').voteInstance o signal = obj.voteInstance o signal := by
  unfold voteInstance emplaceRecord
  rw [ExtTreeMap.getElem?_insertIfNew]
  split_ifs with h
  · obtain rfl : o' = o := Std.LawfulEqCmp.compare_eq_iff_eq.1 h.1
    simp [ExtTreeMap.getElem?_eq_none h.2]
  · rfl

lemma voteInstance_setInstance {i : VoteInstance} :
    (obj.setInstance o' signal' i).voteInstance o signal =
      if o = o' ∧ signal = signal' then i else obj.voteInstance o signal := by
  unfold voteInstance setInstance
  by_cases ho : o = o'
  · subst ho
    by_cases hs : signal = signal' <;> simp [Maps.getElem?_insert, hs]
  · simp [Maps.getElem?_insert, ho]

@[simp] lemma voteInstance_emplaceInstance :
    (obj.emplaceInstance o' signal').voteInstance o signal = obj.voteInstance o signal := by
  rw [emplaceInstance, voteInstance_setInstance]
  split_ifs with h
  · rw [h.1, h.2]
  · rfl

end

structure Acceptable (ctx : GovernanceContext) (fRateChecksEnabled : Bool)
    (obj : GovernanceObject) (vote : GovernanceVote) : Prop where
  isNew : obj.fileVotes.hasVote vote.getHash = false
  known : (ctx.mnList.getMNByCollateral vote.masternodeOutpoint).isSome
  signal_ne : vote.getSignal ≠ VOTE_SIGNAL_NONE
  signal_le : vote.getSignal ≤ MAX_SUPPORTED_VOTE_SIGNAL
  time_le : (obj.voteInstance vote.masternodeOutpoint vote.getSignal).nCreationTime ≤ vote.nTime
  outcome_le : vote.nTime =
      (obj.voteInstance vote.masternodeOutpoint vote.getSignal).nCreationTime →
    (obj.voteInstance vote.masternodeOutpoint vote.getSignal).eOutcome ≤ vote.getOutcome
  rate : fRateChecksEnabled → GOVERNANCE_UPDATE_MIN ≤
    ctx.nNow - (obj.voteInstance vote.masternodeOutpoint vote.getSignal).nTime
  isValid : vote.isValid ctx (obj.nObjectType = GOVERNANCE_OBJECT_PROPOSAL ∧
    vote.getSignal = VOTE_SIGNAL_FUNDING)

structure SameVotes (obj obj' : GovernanceObject) : Prop where
  fileVotes : obj'.fileVotes = obj.fileVotes
  nObjectType : obj'.nObjectType = obj.nObjectType
  voteInstance : ∀ o signal, obj'.voteInstance o signal = obj.voteInstance o signal

section

omit [PropertyHash]

lemma SameVotes.refl (obj : GovernanceObject) : SameVotes obj obj := ⟨rfl, rfl, fun _ _ => rfl⟩

lemma SameVotes.trans {obj1 obj2 obj3 : GovernanceObject} (h : SameVotes obj1 obj2)
    (h' : SameVotes obj2 obj3) : SameVotes obj1 obj3 :=
  ⟨h'.fileVotes.trans h.fileVotes, h'.nObjectType.trans h.nObjectType,
    fun o signal => (h'.voteInstance o signal).trans (h.voteInstance o signal)⟩

lemma SameVotes.symm {obj' : GovernanceObject} (h : SameVotes obj obj') : SameVotes obj' obj :=
  ⟨h.fileVotes.symm, h.nObjectType.symm, fun o signal => (h.voteInstance o signal).symm⟩

end

variable {ctx} {obj' : GovernanceObject} {checks : Bool} {vote : GovernanceVote}

lemma SameVotes.acceptable (h : SameVotes obj obj') (ha : Acceptable ctx checks obj vote) :
    Acceptable ctx checks obj' vote where
  isNew := h.fileVotes ▸ ha.isNew
  known := ha.known
  signal_ne := ha.signal_ne
  signal_le := ha.signal_le
  time_le := by rw [h.voteInstance]; exact ha.time_le
  outcome_le := by rw [h.voteInstance]; exact ha.outcome_le
  rate := by rw [h.voteInstance]; exact ha.rate
  isValid := by rw [h.nObjectType]; exact ha.isValid

lemma SameVotes.acceptable_iff (h : SameVotes obj obj') :
    Acceptable ctx checks obj' vote ↔ Acceptable ctx checks obj vote :=
  ⟨h.symm.acceptable, h.acceptable⟩

section

omit [PropertyHash]

lemma sameVotes_emplaceRecord (obj : GovernanceObject) (o : OutPoint) :
    SameVotes obj (obj.emplaceRecord o) :=
  ⟨rfl, rfl, fun _ _ => voteInstance_emplaceRecord⟩

lemma sameVotes_emplaceInstance (obj : GovernanceObject) (o : OutPoint) (signal : Nat) :
    SameVotes obj (obj.emplaceInstance o signal) :=
  ⟨rfl, rfl, fun _ _ => voteInstance_emplaceInstance⟩

end

variable (ctx obj checks vote) in
lemma processVote_cases : (Acceptable ctx checks obj vote ∧
      (obj.processVote ctx checks vote).accepted = true) ∨
    (¬ Acceptable ctx checks obj vote ∧ (obj.processVote ctx checks vote).accepted = false ∧
      SameVotes obj (obj.processVote ctx checks vote).object) := by
  have hc := obj.sameVotes_emplaceRecord vote.masternodeOutpoint
  have hi := hc.trans (sameVotes_emplaceInstance _ vote.masternodeOutpoint vote.getSignal)
  unfold processVote
  by_cases hf : obj.fileVotes.hasVote vote.getHash
  · rw [if_pos hf]
    exact .inr ⟨fun h => by simp [h.isNew] at hf, rfl, .refl obj⟩
  rw [if_neg hf]
  dsimp only
  cases hn : ctx.mnList.getMNByCollateral vote.masternodeOutpoint with
  | none => exact .inr ⟨fun h => by simpa [hn] using h.known, rfl, ⟨rfl, rfl, fun _ _ => rfl⟩⟩
  | some dmn =>
    simp only [voteInstance_emplaceInstance, voteInstance_emplaceRecord]
    split_ifs with hsig hm ht ho hrt hv
    · exact .inr ⟨fun h => h.signal_ne hsig, rfl, hc⟩
    · exact .inr ⟨fun h => absurd h.signal_le (by omega), rfl, hc⟩
    · exact .inr ⟨fun h => absurd h.time_le (by omega), rfl, hi⟩
    · exact .inr ⟨fun h => absurd (h.outcome_le ho.1) (by omega), rfl, hi⟩
    · exact .inr ⟨fun h => absurd (h.rate hrt.1) (by omega), rfl, hi⟩
    · refine .inr ⟨fun h => ?_, rfl, hi⟩
      have := h.isValid
      simp only [Bool.not_eq_true'] at hv
      rw [← hi.nObjectType] at this
      rw [this] at hv
      cases hv
    -- with and without the update of the time
    all_goals
      refine .inl ⟨⟨by simpa using hf, by simp [hn], hsig, by omega, by omega, ?_, ?_, ?_⟩, rfl⟩
      · intro he
        by_contra hl
        exact ho ⟨he, by omega⟩
      · intro hr
        by_contra hl
        exact hrt ⟨hr, by omega⟩
      · rw [← hi.nObjectType]
        simpa using hv

lemma accepted_processVote : (obj.processVote ctx checks vote).accepted = true ↔
      Acceptable ctx checks obj vote := by
  rcases processVote_cases ctx obj checks vote with ⟨h, ha⟩ | ⟨h, ha, -⟩ <;>
    simp [h, ha]

end Lemmas

def countMatchingVotes (eVoteSignalIn eVoteOutcomeIn : Nat) : Nat :=
  (Maps.values obj.mapCurrentMNVotes).countP fun recVote =>
    (recVote[eVoteSignalIn]?).any fun i => i.eOutcome = eVoteOutcomeIn

def getAbsoluteYesCount (eVoteSignalIn : Nat) : Int :=
  obj.countMatchingVotes eVoteSignalIn VOTE_OUTCOME_YES -
    obj.countMatchingVotes eVoteSignalIn VOTE_OUTCOME_NO

def getAbsoluteNoCount (eVoteSignalIn : Nat) : Int :=
  obj.countMatchingVotes eVoteSignalIn VOTE_OUTCOME_NO -
    obj.countMatchingVotes eVoteSignalIn VOTE_OUTCOME_YES

def updateSentinelVariables : GovernanceObject :=
  let nMnCount : Int := ctx.mnList.getValidMNsCount
  if nMnCount = 0 then obj
  else
    let nAbsVoteReq := max ctx.nGovernanceMinQuorum (nMnCount / 10)
    let nAbsDeleteReq := max ctx.nGovernanceMinQuorum (2 * nMnCount / 3)
    let fDelete := nAbsDeleteReq ≤ obj.getAbsoluteYesCount VOTE_SIGNAL_DELETE ∧
      !obj.fCachedDelete
    { obj with
      fCachedFunding := nAbsVoteReq ≤ obj.getAbsoluteYesCount VOTE_SIGNAL_FUNDING
      fCachedValid := !(nAbsVoteReq ≤ obj.getAbsoluteNoCount VOTE_SIGNAL_VALID)
      fCachedEndorsed := nAbsVoteReq ≤ obj.getAbsoluteYesCount VOTE_SIGNAL_ENDORSED
      fCachedDelete := obj.fCachedDelete || fDelete
      nDeletionTime := if fDelete ∧ obj.nDeletionTime = 0 then ctx.nNow else obj.nDeletionTime
      fDirtyCache := false }

end GovernanceObject
end Trivechain.Governance
