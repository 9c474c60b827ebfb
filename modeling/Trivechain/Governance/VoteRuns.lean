import Trivechain.Evo.TableHash
import Trivechain.Governance.Object

/-!
# Runs of votes

What a governance object counts after votes have arrived in some order, and whether its vote file
and its map of current votes tell the same.

A vote replaces the current one of its masternode and signal if its time is later, or the same with
an outcome that is not smaller. So the counted vote is the greatest by time and outcome, whatever
the order. The vote file only drops strictly older votes, so of two votes of the same time it keeps
both.
-/

namespace Trivechain.Governance
open Bls Evo
open Std (ExtTreeMap)
open List GovernanceVote VoteFile

def GovernanceVote.rank (vote : GovernanceVote) : ℤ ×ₗ ℕ := toLex (vote.nTime, vote.getOutcome)

def VoteInstance.rank (i : VoteInstance) : ℤ ×ₗ ℕ := toLex (i.nCreationTime, i.eOutcome)

lemma rank_le_iff {t t' : ℤ} {a a' : ℕ} :
    (toLex (t, a) : ℤ ×ₗ ℕ) ≤ toLex (t', a') ↔ t < t' ∨ t = t' ∧ a ≤ a' := by
  rw [Prod.Lex.toLex_le_toLex]

variable [VoteHash]

/-- Votes with the same hash differ in their signatures at most. -/
def CollisionFree : Prop :=
  ∀ vote vote' : GovernanceVote, vote.getHash = vote'.getHash →
    { vote with vchSig := [] } = { vote' with vchSig := [] }

namespace VoteFile
variable {f : VoteFile} {vote : GovernanceVote}

lemma hasVote_iff {nHash : Uint256} :
    f.hasVote nHash = true ↔ ∃ old ∈ f.listVotes, old.getHash = nHash := by
  simp [hasVote]

lemma mem_addVote (hn : f.hasVote vote.getHash = false) {old : GovernanceVote} :
    old ∈ (f.addVote vote).listVotes ↔
      old = vote ∨ old ∈ f.listVotes ∧ outdated vote old = false := by
  have hs : outdated vote vote = false := by simp [outdated]
  rw [addVote, dif_neg (by simp [hn])]
  simp only [mem_filter, mem_cons, Bool.not_eq_true']
  grind

end VoteFile

namespace GovernanceObject

def VOTE_OUTCOME_ABSTAIN : Nat := 3

section Counts
variable (obj : GovernanceObject)

def getYesCount (eVoteSignalIn : Nat) : Nat := obj.countMatchingVotes eVoteSignalIn VOTE_OUTCOME_YES

def getNoCount (eVoteSignalIn : Nat) : Nat := obj.countMatchingVotes eVoteSignalIn VOTE_OUTCOME_NO

def getAbstainCount (eVoteSignalIn : Nat) : Nat :=
  obj.countMatchingVotes eVoteSignalIn VOTE_OUTCOME_ABSTAIN

end Counts

variable {obj obj' : GovernanceObject}

lemma countMatchingVotes_congr {signal outcome : Nat} (hs : outcome ≠ VOTE_OUTCOME_NONE)
    (h : ∀ o, (obj.voteInstance o signal).eOutcome = (obj'.voteInstance o signal).eOutcome) :
    obj.countMatchingVotes signal outcome = obj'.countMatchingVotes signal outcome := by
  -- a masternode is counted if its instance has the outcome, which a missing one has not
  have hc : ∀ (obj : GovernanceObject) (o : OutPoint), (obj.mapCurrentMNVotes[o]?.any fun recVote =>
        (recVote[signal]?).any fun i => i.eOutcome = outcome) =
      decide ((obj.voteInstance o signal).eOutcome = outcome) := by
    intro obj o
    unfold voteInstance
    cases obj.mapCurrentMNVotes[o]? with
    | none => simpa [eq_comm] using hs
    | some recVote =>
      cases hi : recVote[signal]? with
      | none => simpa [hi, eq_comm] using hs
      | some i => simp [hi]
  refine Maps.countP_values_congr fun o => ?_
  rw [hc, hc, h o]

def SameCounts (obj obj' : GovernanceObject) : Prop :=
  ∀ signal, obj.getYesCount signal = obj'.getYesCount signal ∧
    obj.getNoCount signal = obj'.getNoCount signal ∧
    obj.getAbstainCount signal = obj'.getAbstainCount signal ∧
    obj.getAbsoluteYesCount signal = obj'.getAbsoluteYesCount signal

lemma sameCounts_of_outcomes
    (h : ∀ o signal, (obj.voteInstance o signal).eOutcome = (obj'.voteInstance o signal).eOutcome) :
    SameCounts obj obj' := by
  intro signal
  have hc : ∀ outcome, outcome ≠ VOTE_OUTCOME_NONE →
      obj.countMatchingVotes signal outcome = obj'.countMatchingVotes signal outcome :=
    fun outcome hs => countMatchingVotes_congr hs fun o => h o signal
  have hy := hc VOTE_OUTCOME_YES (by decide)
  have hn := hc VOTE_OUTCOME_NO (by decide)
  refine ⟨hy, hn, hc VOTE_OUTCOME_ABSTAIN (by decide), ?_⟩
  rw [getAbsoluteYesCount, getAbsoluteYesCount, hy, hn]

section Step
variable [PropertyHash] {ctx : GovernanceContext} {fRateChecksEnabled : Bool}
  {vote : GovernanceVote}

structure Counted (obj : GovernanceObject) (vote : GovernanceVote) (obj' : GovernanceObject) :
    Prop where
  fileVotes : obj'.fileVotes = obj.fileVotes.addVote vote
  nHash : obj'.nHash = obj.nHash
  nObjectType : obj'.nObjectType = obj.nObjectType
  rank : (obj'.voteInstance vote.masternodeOutpoint vote.getSignal).rank = vote.rank
  others : ∀ o signal, ¬ (o = vote.masternodeOutpoint ∧ signal = vote.getSignal) →
    obj'.voteInstance o signal = obj.voteInstance o signal

lemma counted_of_acceptable (h : Acceptable ctx fRateChecksEnabled obj vote) :
    Counted obj vote (obj.processVote ctx fRateChecksEnabled vote).object := by
  have hc := obj.sameVotes_emplaceRecord vote.masternodeOutpoint
  have hi := hc.trans (sameVotes_emplaceInstance _ vote.masternodeOutpoint vote.getSignal)
  obtain ⟨dmn, hd⟩ := Option.isSome_iff_exists.1 h.known
  have hv : vote.isValid ctx (decide (((obj.emplaceRecord vote.masternodeOutpoint).emplaceInstance
      vote.masternodeOutpoint vote.getSignal).nObjectType = GOVERNANCE_OBJECT_PROPOSAL ∧
      vote.getSignal = VOTE_SIGNAL_FUNDING)) = true := by
    rw [hi.nObjectType]
    exact h.isValid
  unfold processVote
  dsimp only
  rw [if_neg (by simp [h.isNew])]
  simp only [hd, voteInstance_emplaceInstance, voteInstance_emplaceRecord]
  rw [if_neg h.signal_ne, if_neg (not_lt.2 h.signal_le), if_neg (not_lt.2 h.time_le),
    if_neg fun ho => absurd (h.outcome_le ho.1) (not_le.2 ho.2),
    if_neg fun hr => absurd (h.rate hr.1) (not_le.2 hr.2),
    if_neg fun hn => by rw [hv] at hn; cases hn]
  refine ⟨rfl, rfl, rfl, ?_, fun o signal he => ?_⟩
  · change (VoteInstance.rank (voteInstance (setInstance _ _ _ _) _ _)) = _
    rw [voteInstance_setInstance, if_pos ⟨rfl, rfl⟩]
    rfl
  · change voteInstance (setInstance _ _ _ _) _ _ = _
    rw [voteInstance_setInstance, if_neg he, hi.voteInstance]

lemma counted_or_rejected (hk : (ctx.mnList.getMNByCollateral vote.masternodeOutpoint).isSome)
    (hv : vote.isValid ctx (obj.nObjectType = GOVERNANCE_OBJECT_PROPOSAL ∧
      vote.getSignal = VOTE_SIGNAL_FUNDING)) :
    (Acceptable ctx false obj vote ∧ Counted obj vote (obj.processVote ctx false vote).object) ∨
    SameVotes obj (obj.processVote ctx false vote).object ∧
      (obj.fileVotes.hasVote vote.getHash = true ∨
        (vote.getSignal = VOTE_SIGNAL_NONE ∨ MAX_SUPPORTED_VOTE_SIGNAL < vote.getSignal) ∨
        vote.rank < (obj.voteInstance vote.masternodeOutpoint vote.getSignal).rank) := by
  rcases processVote_cases ctx obj false vote with ⟨h, -⟩ | ⟨h, -, hsm⟩
  · exact .inl ⟨h, counted_of_acceptable h⟩
  refine .inr ⟨hsm, ?_⟩
  by_contra hn
  simp only [not_or, Bool.not_eq_true, not_lt] at hn
  obtain ⟨hw, ⟨hs, hm⟩, hr⟩ := hn
  have hr := rank_le_iff.1 hr
  exact h ⟨hw, hk, hs, hm, by omega, by omega, by simp, hv⟩

end Step

section Orders
variable [PropertyHash] {ctx : GovernanceContext}

variable (ctx) in
def processVotes (obj : GovernanceObject) (votes : List GovernanceVote) : GovernanceObject :=
  votes.foldl (fun obj vote => (obj.processVote ctx false vote).object) obj

/-- The vote is for the object, by a known masternode, and its signature is valid. -/
structure ValidFor (ctx : GovernanceContext) (obj : GovernanceObject) (vote : GovernanceVote) :
    Prop where
  parent : vote.nParentHash = obj.nHash
  known : (ctx.mnList.getMNByCollateral vote.masternodeOutpoint).isSome
  isValid : vote.isValid ctx (obj.nObjectType = GOVERNANCE_OBJECT_PROPOSAL ∧
    vote.getSignal = VOTE_SIGNAL_FUNDING)

/-- The votes for a masternode and a supported signal that have not been there before. -/
def Candidate (obj : GovernanceObject) (o : OutPoint) (signal : Nat) (vote : GovernanceVote) :
    Prop :=
  vote.masternodeOutpoint = o ∧ vote.getSignal = signal ∧ signal ≠ VOTE_SIGNAL_NONE ∧
    signal ≤ MAX_SUPPORTED_VOTE_SIGNAL ∧ obj.fileVotes.hasVote vote.getHash = false

/-- After some votes: each instance has the greatest rank of the candidates, a vote in the file was
there before or is not greater than what counts, and one that has left the file is older. -/
structure Greatest (obj : GovernanceObject) (done : List GovernanceVote) (s : GovernanceObject) :
    Prop where
  nObjectType : s.nObjectType = obj.nObjectType
  atLeast : ∀ o signal, (obj.voteInstance o signal).rank ≤ (s.voteInstance o signal).rank
  upper : ∀ o signal, ∀ vote ∈ done, Candidate obj o signal vote →
    vote.rank ≤ (s.voteInstance o signal).rank
  attained : ∀ o signal, (s.voteInstance o signal).rank = (obj.voteInstance o signal).rank ∨
    ∃ vote ∈ done, Candidate obj o signal vote ∧ (s.voteInstance o signal).rank = vote.rank
  stored : ∀ vote : GovernanceVote, s.fileVotes.hasVote vote.getHash = true →
    obj.fileVotes.hasVote vote.getHash = true ∨
      vote.rank ≤ (s.voteInstance vote.masternodeOutpoint vote.getSignal).rank
  dropped : ∀ vote : GovernanceVote, obj.fileVotes.hasVote vote.getHash = true →
    s.fileVotes.hasVote vote.getHash = true ∨
      vote.nTime < (s.voteInstance vote.masternodeOutpoint vote.getSignal).nCreationTime

omit [PropertyHash] in
lemma Greatest.refl (obj : GovernanceObject) : Greatest obj [] obj :=
  ⟨rfl, fun _ _ => le_rfl, by simp, fun _ _ => .inl rfl, fun _ h => .inl h, fun _ h => .inl h⟩

variable {done votes : List GovernanceVote} {s s' : GovernanceObject} {vote : GovernanceVote}

omit [PropertyHash] in
lemma Greatest.same (h : Greatest obj done s) (hs : SameVotes s s')
    (hv : ∀ o signal, Candidate obj o signal vote → vote.rank ≤ (s.voteInstance o signal).rank) :
    Greatest obj (done ++ [vote]) s' := by
  refine ⟨hs.nObjectType.trans h.nObjectType, ?_, ?_, ?_, ?_, ?_⟩
  · intro o signal
    rw [hs.voteInstance]
    exact h.atLeast o signal
  · intro o signal w hw hc
    rw [hs.voteInstance]
    rcases mem_append.1 hw with hw | hw
    · exact h.upper o signal w hw hc
    · obtain rfl := mem_singleton.1 hw
      exact hv o signal hc
  · intro o signal
    rw [hs.voteInstance]
    rcases h.attained o signal with he | ⟨w, hw, hw'⟩
    · exact .inl he
    · exact .inr ⟨w, mem_append_left _ hw, hw'⟩
  · intro w hw
    rw [hs.voteInstance]
    exact h.stored w (hs.fileVotes ▸ hw)
  · intro w hw
    rw [hs.voteInstance, hs.fileVotes]
    exact h.dropped w hw

lemma Greatest.counted (hf : CollisionFree) (h : Greatest obj done s)
    (ha : Acceptable ctx false s vote) (hc : Counted s vote s') :
    Greatest obj (done ++ [vote]) s' := by
  have hle : (s.voteInstance vote.masternodeOutpoint vote.getSignal).rank ≤ vote.rank := by
    have ht := ha.time_le
    have hoc := ha.outcome_le
    exact rank_le_iff.2 (by omega)
  -- ranks only grow
  have hm : ∀ o signal, (s.voteInstance o signal).rank ≤ (s'.voteInstance o signal).rank := by
    intro o signal
    by_cases hat : o = vote.masternodeOutpoint ∧ signal = vote.getSignal
    · obtain ⟨rfl, rfl⟩ := hat
      rw [hc.rank]
      exact hle
    · rw [hc.others o signal hat]
  -- a vote that was there before is still in the file, or older than what counts
  have hn : obj.fileVotes.hasVote vote.getHash = false := by
    by_contra hold
    rcases h.dropped vote (by simpa using hold) with hi | hl
    · rw [ha.isNew] at hi
      cases hi
    · exact absurd ha.time_le (not_le.2 hl)
  have hcn : Candidate obj vote.masternodeOutpoint vote.getSignal vote :=
    ⟨rfl, rfl, ha.signal_ne, ha.signal_le, hn⟩
  refine ⟨hc.nObjectType.trans h.nObjectType, ?_, ?_, ?_, ?_, ?_⟩
  · exact fun o signal => (h.atLeast o signal).trans (hm o signal)
  · intro o signal w hw hw'
    rcases mem_append.1 hw with hw | hw
    · exact (h.upper o signal w hw hw').trans (hm o signal)
    · obtain rfl := mem_singleton.1 hw
      obtain ⟨rfl, rfl, -⟩ := hw'
      exact hc.rank.ge
  · intro o signal
    by_cases hat : o = vote.masternodeOutpoint ∧ signal = vote.getSignal
    · obtain ⟨rfl, rfl⟩ := hat
      exact .inr ⟨vote, by simp, hcn, hc.rank⟩
    · rw [hc.others o signal hat]
      rcases h.attained o signal with he | ⟨w, hw, hw'⟩
      · exact .inl he
      · exact .inr ⟨w, mem_append_left _ hw, hw'⟩
  · intro w hw
    rw [hc.fileVotes, hasVote_iff] at hw
    obtain ⟨old, hold, he⟩ := hw
    rcases (mem_addVote ha.isNew).1 hold with rfl | ⟨hold, -⟩
    · right
      have hs := hf _ _ he
      simp only [GovernanceVote.mk.injEq] at hs
      rw [← hs.1, GovernanceVote.getSignal, ← hs.2.2.2.1]
      refine (le_of_eq ?_).trans hc.rank.ge
      rw [rank, rank, getOutcome, getOutcome, hs.2.2.1, hs.2.2.2.2.1]
    · exact (h.stored w (hasVote_iff.2 ⟨old, hold, he⟩)).imp_right fun hr => hr.trans (hm _ _)
  · intro w hw
    rcases h.dropped w hw with hi | hl
    · obtain ⟨old, hold, he⟩ := hasVote_iff.1 hi
      by_cases hu : outdated vote old = true
      · right
        have hs := hf _ _ he
        simp only [GovernanceVote.mk.injEq] at hs
        simp only [outdated, decide_eq_true_eq] at hu
        obtain ⟨ho, -, hg, ht⟩ := hu
        have hr := hc.rank
        rw [← hs.1, ho, show w.getSignal = vote.getSignal by
          rw [← hg, getSignal, getSignal, hs.2.2.2.1]]
        have hcr := congrArg (fun r => (ofLex r).1) hr
        simp only [VoteInstance.rank, rank, ofLex_toLex] at hcr
        rw [hcr, ← hs.2.2.2.2.1]
        exact ht
      · left
        rw [hc.fileVotes, hasVote_iff]
        exact ⟨old, (mem_addVote ha.isNew).2 (.inr ⟨hold, by simpa using hu⟩), he⟩
    · right
      have := rank_le_iff.1 (hm w.masternodeOutpoint w.getSignal)
      omega

lemma greatest_processVotes (hf : CollisionFree) (votes : List GovernanceVote)
    (hl : ∀ vote ∈ votes, ValidFor ctx obj vote) :
    Greatest obj votes (obj.processVotes ctx votes) := by
  -- by induction on the votes, from the last one
  induction votes using List.reverseRecOn with
  | nil => exact .refl obj
  | append_singleton done vote ih =>
    have hs := ih fun w hw => hl w (mem_append_left _ hw)
    have hv := hl vote (by simp)
    rw [processVotes, foldl_append, foldl_cons, foldl_nil]
    change Greatest obj _ ((obj.processVotes ctx done).processVote ctx false vote).object
    generalize obj.processVotes ctx done = s at hs
    rcases counted_or_rejected hv.known (by rw [hs.nObjectType]; exact hv.isValid) with
      ⟨ha, hcn⟩ | ⟨hsm, hr⟩
    · exact hs.counted hf ha hcn
    · refine hs.same hsm fun o signal hc => ?_
      obtain ⟨rfl, rfl, hn, hm, hnw⟩ := hc
      rcases hr with hst | (hg | hg) | ht
      · rcases hs.stored vote hst with hold | he
        · rw [hnw] at hold
          cases hold
        · exact he
      · exact absurd hg hn
      · exact absurd hm (not_le.2 hg)
      · exact ht.le

omit [PropertyHash] in
lemma Greatest.isGreatest (h : Greatest obj votes s) (o : OutPoint) (signal : Nat) :
    IsGreatest (insert (obj.voteInstance o signal).rank
      {r | ∃ vote ∈ votes, Candidate obj o signal vote ∧ vote.rank = r})
      (s.voteInstance o signal).rank := by
  constructor
  · rcases h.attained o signal with he | ⟨vote, hv, hc, he⟩
    · exact .inl he
    · exact .inr ⟨vote, hv, hc, he.symm⟩
  · rintro r (rfl | ⟨vote, hv, hc, rfl⟩)
    · exact h.atLeast o signal
    · exact h.upper o signal vote hv hc

/-- The order of the votes does not matter: what counts for a masternode and a signal is the
greatest of what counted before and the new votes. -/
theorem counts_of_perm (hfree : CollisionFree) {votes' : List GovernanceVote}
    (hperm : votes.Perm votes') (hvalid : ∀ vote ∈ votes, ValidFor ctx obj vote) :
    SameCounts (obj.processVotes ctx votes) (obj.processVotes ctx votes') ∧
    ∀ o signal, IsGreatest (insert (obj.voteInstance o signal).rank
      {r | ∃ vote ∈ votes, Candidate obj o signal vote ∧ vote.rank = r})
      ((obj.processVotes ctx votes).voteInstance o signal).rank := by
  have hg := (greatest_processVotes hfree votes hvalid).isGreatest
  refine ⟨sameCounts_of_outcomes fun o signal => ?_, hg⟩
  have hg' := (greatest_processVotes hfree votes' fun vote hv =>
    hvalid vote (hperm.mem_iff.2 hv)).isGreatest o signal
  simp only [← hperm.mem_iff] at hg'
  have hr := (hg o signal).unique hg'
  exact congrArg (fun r => (ofLex r).2) hr

end Orders
end GovernanceObject

open GovernanceObject

section Removal
variable [PropertyHash] (ctx : GovernanceContext)

namespace VoteFile
variable (f : VoteFile)

def keepIf (p : GovernanceVote → Bool) : VoteFile where
  listVotes := f.listVotes.filter p
  nodup := (List.filter_sublist.map _).nodup f.nodup

def removeVotesFromMasternode (outpointMasternode : OutPoint) : VoteFile :=
  f.keepIf fun vote => vote.masternodeOutpoint ≠ outpointMasternode

/-- The condition on which `RemoveInvalidVotes` erases a vote. -/
def invalidOf (outpointMasternode : OutPoint) (fProposal : Bool) (vote : GovernanceVote) : Bool :=
  vote.masternodeOutpoint = outpointMasternode &&
    !vote.isValid ctx (fProposal && vote.getSignal = VOTE_SIGNAL_FUNDING)

def removeInvalidVotes (outpointMasternode : OutPoint) (fProposal : Bool) :
    VoteFile × List Uint256 :=
  (f.keepIf fun vote => !invalidOf ctx outpointMasternode fProposal vote,
    (f.listVotes.filter (invalidOf ctx outpointMasternode fProposal)).map (getHash ·))

def votesFor (o : OutPoint) (signal : Nat) : List GovernanceVote :=
  f.listVotes.filter fun vote => vote.masternodeOutpoint = o ∧ vote.getSignal = signal

end VoteFile

/-- An enumeration without negative members, converted to `int`. -/
def intOfEnum (n : Nat) : Int := if n < 2 ^ 31 then n else n - 2 ^ 32

namespace GovernanceObject
variable (obj : GovernanceObject)

def clearVotesOf (mnOutpoint : OutPoint) : GovernanceObject :=
  if (ctx.mnList.getMNByCollateral mnOutpoint).isSome then obj
  else
    { obj with
      fileVotes := obj.fileVotes.removeVotesFromMasternode mnOutpoint
      mapCurrentMNVotes := obj.mapCurrentMNVotes.erase mnOutpoint }

def clearMasternodeVotes : GovernanceObject :=
  obj.mapCurrentMNVotes.keys.foldl (fun obj o => obj.clearVotesOf ctx o) obj

def tmpVote (mnOutpoint : OutPoint) (signal : Nat) (i : VoteInstance) : GovernanceVote where
  masternodeOutpoint := mnOutpoint
  nParentHash := obj.nHash
  nVoteSignal := intOfEnum signal
  nVoteOutcome := intOfEnum i.eOutcome
  nTime := i.nCreationTime

def removeInvalidVotes (mnOutpoint : OutPoint) : GovernanceObject × List Uint256 :=
  match obj.mapCurrentMNVotes[mnOutpoint]? with
  | none => (obj, [])
  | some recVote =>
    let (fileVotes, removedVotes) := obj.fileVotes.removeInvalidVotes ctx mnOutpoint
      (obj.nObjectType = GOVERNANCE_OBJECT_PROPOSAL)
    if removedVotes.isEmpty then ({ obj with fileVotes := fileVotes }, [])
    else
      let mapInstances := recVote.filter fun signal i =>
        !removedVotes.contains (obj.tmpVote mnOutpoint signal i).getHash
      ({ obj with
        fileVotes := fileVotes
        mapCurrentMNVotes :=
          if mapInstances.isEmpty then obj.mapCurrentMNVotes.erase mnOutpoint
          else obj.mapCurrentMNVotes.insert mnOutpoint mapInstances
        fDirtyCache := true }, removedVotes)

end GovernanceObject

inductive ObjectEvent where
  | processVote (ctx : GovernanceContext) (fRateChecksEnabled : Bool) (vote : GovernanceVote)
  | clearMasternodeVotes (ctx : GovernanceContext)
  | removeInvalidVotes (ctx : GovernanceContext) (mnOutpoint : OutPoint)

end Removal

namespace GovernanceObject
variable [PropertyHash]

def handle (obj : GovernanceObject) : ObjectEvent → GovernanceObject
  | .processVote ctx fRateChecksEnabled vote =>
    (obj.processVote ctx fRateChecksEnabled vote).object
  | .clearMasternodeVotes ctx => obj.clearMasternodeVotes ctx
  | .removeInvalidVotes ctx mnOutpoint => (obj.removeInvalidVotes ctx mnOutpoint).1

/-- The vote is for the object, and its fields are of type `int`. -/
structure Own (obj : GovernanceObject) (vote : GovernanceVote) : Prop where
  parent : vote.nParentHash = obj.nHash
  outcome_range : -2 ^ 31 ≤ vote.nVoteOutcome ∧ vote.nVoteOutcome < 2 ^ 31
  signal_range : -2 ^ 31 ≤ vote.nVoteSignal ∧ vote.nVoteSignal < 2 ^ 31

structure Fresh (obj : GovernanceObject) : Prop where
  mapCurrentMNVotes : obj.mapCurrentMNVotes = ∅
  listVotes : obj.fileVotes.listVotes = []

/-- The vote file and the map of current votes describe the same votes. -/
def SameStores (obj : GovernanceObject) : Prop :=
  ∀ o signal, if (obj.voteInstance o signal).nCreationTime ≠ 0 then
      ∃ vote, obj.fileVotes.votesFor o signal = [vote] ∧
        vote.getOutcome = (obj.voteInstance o signal).eOutcome ∧
        vote.nTime = (obj.voteInstance o signal).nCreationTime
    else obj.fileVotes.votesFor o signal = []

/-- On a fresh object, the votes of the file are counted as they are, if they are still valid. -/
def Replays (obj : GovernanceObject) : Prop :=
  ∀ (ctx : GovernanceContext) (fresh : GovernanceObject), fresh.Fresh → fresh.nHash = obj.nHash →
    (∀ vote ∈ obj.fileVotes.listVotes, ValidFor ctx fresh vote) →
    SameCounts (fresh.processVotes ctx obj.fileVotes.listVotes) obj

/-- The vote has not the time of the current one, unless it is known or rejected for its outcome. -/
def Untied (obj : GovernanceObject) : ObjectEvent → Prop
  | .processVote _ _ vote =>
    vote.nTime = (obj.voteInstance vote.masternodeOutpoint vote.getSignal).nCreationTime →
      obj.fileVotes.hasVote vote.getHash = true ∨
        vote.getOutcome < (obj.voteInstance vote.masternodeOutpoint vote.getSignal).eOutcome
  | _ => True

def OwnEvent (obj : GovernanceObject) : ObjectEvent → Prop
  | .processVote _ _ vote => obj.Own vote
  | _ => True

structure Stored (obj : GovernanceObject) (vote : GovernanceVote) : Prop where
  own : obj.Own vote
  signal_ne : vote.getSignal ≠ VOTE_SIGNAL_NONE
  signal_le : vote.getSignal ≤ MAX_SUPPORTED_VOTE_SIGNAL
  time_pos : 0 < vote.nTime
  rank : vote.rank = (obj.voteInstance vote.masternodeOutpoint vote.getSignal).rank

structure Kept (obj : GovernanceObject) : Prop where
  stored : ∀ vote ∈ obj.fileVotes.listVotes, obj.Stored vote
  current : ∀ o signal, (obj.voteInstance o signal).rank = toLex (0, VOTE_OUTCOME_NONE) ∨
    0 < (obj.voteInstance o signal).nCreationTime ∧
      ∃ vote ∈ obj.fileVotes.listVotes, vote.masternodeOutpoint = o ∧ vote.getSignal = signal

section Kept
variable {ctx : GovernanceContext} {obj obj' : GovernanceObject} {vote vote' : GovernanceVote}
  {fRateChecksEnabled : Bool}

section

omit [VoteHash] [PropertyHash]

lemma toInt_getOutcome (h : -2 ^ 31 ≤ vote.nVoteOutcome ∧ vote.nVoteOutcome < 2 ^ 31) :
    intOfEnum vote.getOutcome = vote.nVoteOutcome := by
  unfold intOfEnum getOutcome
  split_ifs <;> omega

lemma toInt_getSignal (h : -2 ^ 31 ≤ vote.nVoteSignal ∧ vote.nVoteSignal < 2 ^ 31) :
    intOfEnum vote.getSignal = vote.nVoteSignal := by
  unfold intOfEnum getSignal
  split_ifs <;> omega

end

section

omit [PropertyHash]

lemma Own.getHash_tmpVote (h : obj.Own vote) {i : VoteInstance} (hr : vote.rank = i.rank) :
    (obj.tmpVote vote.masternodeOutpoint vote.getSignal i).getHash = vote.getHash := by
  have ht : vote.nTime = i.nCreationTime := congrArg (fun r => (ofLex r).1) hr
  have ho : vote.getOutcome = i.eOutcome := congrArg (fun r => (ofLex r).2) hr
  unfold getHash tmpVote
  dsimp only
  rw [← ht, ← ho, toInt_getSignal h.signal_range, toInt_getOutcome h.outcome_range, h.parent]

lemma Kept.unique (h : obj.Kept) (hv : vote ∈ obj.fileVotes.listVotes)
    (hv' : vote' ∈ obj.fileVotes.listVotes)
    (ho : vote.masternodeOutpoint = vote'.masternodeOutpoint)
    (hs : vote.getSignal = vote'.getSignal) : vote = vote' := by
  refine inj_on_of_nodup_map obj.fileVotes.nodup hv hv' ?_
  have hr := (h.stored vote hv).rank
  have hh' := (h.stored vote' hv').own.getHash_tmpVote (h.stored vote' hv').rank
  rw [← (h.stored vote hv).own.getHash_tmpVote hr, ho, hs, hh']

lemma Kept.sameStores (h : obj.Kept) : obj.SameStores := by
  intro o signal
  have hm : ∀ vote, vote ∈ obj.fileVotes.votesFor o signal ↔
      vote ∈ obj.fileVotes.listVotes ∧ vote.masternodeOutpoint = o ∧ vote.getSignal = signal := by
    simp [votesFor]
  split_ifs with hc
  · rcases h.current o signal with hr | ⟨-, vote, hv, rfl, rfl⟩
    · exact absurd (congrArg (fun r => (ofLex r).1) hr) hc
    have hr := (h.stored vote hv).rank
    refine ⟨vote, ?_, congrArg (fun r => (ofLex r).2) hr, congrArg (fun r => (ofLex r).1) hr⟩
    -- the list has no other element, and none twice
    have hn : (obj.fileVotes.votesFor vote.masternodeOutpoint vote.getSignal).Nodup :=
      filter_sublist.nodup (List.Nodup.of_map _ obj.fileVotes.nodup)
    refine perm_singleton.1 ((perm_ext_iff_of_nodup hn (by simp)).2 fun w => ?_)
    rw [hm, mem_singleton]
    constructor
    · rintro ⟨hw, ho, hs⟩
      exact h.unique hw hv ho hs
    · rintro rfl
      exact ⟨hv, rfl, rfl⟩
  · refine eq_nil_iff_forall_not_mem.2 fun vote hv => ?_
    obtain ⟨hi, rfl, rfl⟩ := (hm vote).1 hv
    have ht := congrArg (fun r => (ofLex r).1) (h.stored vote hi).rank
    have hp := (h.stored vote hi).time_pos
    exact hc fun hz => absurd (ht.trans hz) hp.ne'

end

lemma Kept.replays (hfr : CollisionFree) (h : obj.Kept) : obj.Replays := by
  intro ctx fresh hf hh hvl
  have hg := greatest_processVotes hfr obj.fileVotes.listVotes hvl
  have he : ∀ o signal, fresh.voteInstance o signal = {} := by
    intro o signal
    simp [voteInstance, hf.mapCurrentMNVotes]
  refine sameCounts_of_outcomes fun o signal => ?_
  suffices hr : ((fresh.processVotes ctx obj.fileVotes.listVotes).voteInstance o signal).rank =
      (obj.voteInstance o signal).rank from congrArg (fun r => (ofLex r).2) hr
  rcases hg.attained o signal with hn | ⟨vote, hv, ⟨rfl, rfl, -⟩, hr⟩
  · rw [hn, he]
    rcases h.current o signal with hz | ⟨-, vote, hv, rfl, rfl⟩
    · exact hz.symm
    -- a vote of the file would have been counted
    have hs := h.stored vote hv
    have hl := hg.upper _ _ vote hv ⟨rfl, rfl, hs.signal_ne, hs.signal_le, by
      simp [hasVote, hf.listVotes]⟩
    rw [hn, he] at hl
    have := rank_le_iff.1 hl
    have hp := hs.time_pos
    simp only at this
    omega
  · rw [hr, (h.stored vote hv).rank]

variable {p : GovernanceVote → Bool}

omit [PropertyHash] in
lemma Kept.keepIf (h : obj.Kept) (hf : obj'.fileVotes = obj.fileVotes.keepIf p)
    (hh : obj'.nHash = obj.nHash) (hk : ∀ vote ∈ obj.fileVotes.listVotes, p vote = true →
      obj'.voteInstance vote.masternodeOutpoint vote.getSignal =
        obj.voteInstance vote.masternodeOutpoint vote.getSignal)
    (hd : ∀ o signal, obj'.voteInstance o signal = {} ∨
      obj'.voteInstance o signal = obj.voteInstance o signal ∧ ∀ vote ∈ obj.fileVotes.listVotes,
        vote.masternodeOutpoint = o → vote.getSignal = signal → p vote = true) : obj'.Kept := by
  have hm : ∀ vote, vote ∈ obj'.fileVotes.listVotes ↔
      vote ∈ obj.fileVotes.listVotes ∧ p vote = true := by
    intro vote
    rw [hf]
    exact mem_filter
  refine ⟨fun vote hv => ?_, fun o signal => ?_⟩
  · obtain ⟨hv, hp⟩ := (hm vote).1 hv
    obtain ⟨⟨hpr, hu, hg⟩, he, hl, hps, hr⟩ := h.stored vote hv
    exact ⟨⟨hpr.trans hh.symm, hu, hg⟩, he, hl, hps, by
      rw [hk vote hv hp]; exact hr⟩
  · rcases hd o signal with hn | ⟨hsm, ha⟩
    · left
      rw [hn]
      rfl
    · rw [hsm]
      rcases h.current o signal with hz | ⟨hps, vote, hv, ho, hs⟩
      · exact .inl hz
      · exact .inr ⟨hps, vote, (hm vote).2 ⟨hv, ha vote hv ho hs⟩, ho, hs⟩

variable (ctx obj vote fRateChecksEnabled) in
lemma nHash_processVote :
    (obj.processVote ctx fRateChecksEnabled vote).object.nHash = obj.nHash := by
  unfold processVote
  by_cases hf : obj.fileVotes.hasVote vote.getHash
  · rw [if_pos hf]
    rfl
  rw [if_neg hf]
  dsimp only
  cases ctx.mnList.getMNByCollateral vote.masternodeOutpoint with
  | none => rfl
  | some dmn =>
    dsimp only
    split_ifs <;> rfl

lemma Kept.processVote (h : obj.Kept) (hon : obj.Own vote)
    (hu : obj.Untied (.processVote ctx fRateChecksEnabled vote)) :
    (obj.processVote ctx fRateChecksEnabled vote).object.Kept := by
  have hh := nHash_processVote ctx obj vote fRateChecksEnabled
  rcases processVote_cases ctx obj fRateChecksEnabled vote with ⟨ha, -⟩ | ⟨-, -, hsm⟩
  · have hc := counted_of_acceptable ha
    generalize (obj.processVote ctx fRateChecksEnabled vote).object = obj' at *
    -- the vote is later than the one that counted, so the file drops that one
    have hl : (obj.voteInstance vote.masternodeOutpoint vote.getSignal).nCreationTime <
        vote.nTime := by
      refine lt_of_le_of_ne ha.time_le fun he => ?_
      rcases hu he.symm with hk | hlt
      · rw [ha.isNew] at hk
        cases hk
      · exact absurd (ha.outcome_le he.symm) (not_le.2 hlt)
    have hn : 0 ≤ (obj.voteInstance vote.masternodeOutpoint vote.getSignal).nCreationTime := by
      rcases h.current vote.masternodeOutpoint vote.getSignal with hz | ⟨hp, -⟩
      · exact (congrArg (fun r => (ofLex r).1) hz).ge
      · exact hp.le
    have hoh : ∀ old ∈ obj.fileVotes.listVotes, outdated vote old = false →
        ¬ (old.masternodeOutpoint = vote.masternodeOutpoint ∧ old.getSignal = vote.getSignal) := by
      rintro old hold hou ⟨ho, hg⟩
      have hs := h.stored old hold
      have ht : old.nTime = _ := congrArg (fun r => (ofLex r).1) hs.rank
      rw [ho, hg] at ht
      simp only [outdated, decide_eq_false_iff_not] at hou
      exact hou ⟨ho, hs.own.parent.trans hon.parent.symm, hg, ht ▸ hl⟩
    have hm : ∀ old, old ∈ obj'.fileVotes.listVotes ↔
        old = vote ∨ old ∈ obj.fileVotes.listVotes ∧ outdated vote old = false := by
      intro old
      rw [hc.fileVotes]
      exact mem_addVote ha.isNew
    refine ⟨fun old hold => ?_, fun o signal => ?_⟩
    · rcases (hm old).1 hold with rfl | ⟨hold, hou⟩
      · exact ⟨⟨hon.parent.trans hh.symm, hon.outcome_range, hon.signal_range⟩,
          ha.signal_ne, ha.signal_le, by omega, hc.rank.symm⟩
      · obtain ⟨⟨hpr, hoc, hg⟩, hne, hle, hp, hr⟩ := h.stored old hold
        refine ⟨⟨hpr.trans hh.symm, hoc, hg⟩, hne, hle, hp, ?_⟩
        rw [hc.others _ _ (hoh old hold hou)]
        exact hr
    · by_cases hat : o = vote.masternodeOutpoint ∧ signal = vote.getSignal
      · obtain ⟨rfl, rfl⟩ := hat
        have ht : (obj'.voteInstance vote.masternodeOutpoint vote.getSignal).nCreationTime =
            vote.nTime := congrArg (fun r => (ofLex r).1) hc.rank
        exact .inr ⟨by omega, vote, (hm vote).2 (.inl rfl), rfl, rfl⟩
      · rw [hc.others o signal hat]
        rcases h.current o signal with hz | ⟨hp, old, hold, rfl, rfl⟩
        · exact .inl hz
        · refine .inr ⟨hp, old, (hm old).2 (.inr ⟨hold, ?_⟩), rfl, rfl⟩
          simp only [outdated, decide_eq_false_iff_not]
          exact fun hou => hat ⟨hou.1, hou.2.2.1⟩
  · refine h.keepIf (p := fun _ => true) ?_ hh (fun old _ _ => hsm.voteInstance _ _)
      fun o signal => .inr ⟨hsm.voteInstance o signal, fun _ _ _ _ => rfl⟩
    rw [hsm.fileVotes]
    simp [VoteFile.keepIf]

lemma Kept.clearVotesOf (h : obj.Kept) (o : OutPoint) : (obj.clearVotesOf ctx o).Kept := by
  unfold GovernanceObject.clearVotesOf
  split_ifs
  · exact h
  have hi : ∀ o' signal, voteInstance { obj with
      fileVotes := obj.fileVotes.removeVotesFromMasternode o
      mapCurrentMNVotes := obj.mapCurrentMNVotes.erase o } o' signal =
      if o' = o then {} else obj.voteInstance o' signal := by
    intro o' signal
    unfold voteInstance
    dsimp only
    rw [Maps.getElem?_erase]
    split_ifs <;> simp
  refine h.keepIf rfl rfl (fun vote _ hp => ?_) fun o' signal => ?_
  · rw [hi, if_neg (by simpa using hp)]
  · rw [hi]
    split_ifs with ho
    · exact .inl rfl
    · exact .inr ⟨rfl, fun vote _ he _ => by simpa [he] using ho⟩

lemma Kept.clearMasternodeVotes (h : obj.Kept) : (obj.clearMasternodeVotes ctx).Kept := by
  unfold GovernanceObject.clearMasternodeVotes
  exact List.foldlRecOn _ _ h fun obj ho o _ => ho.clearVotesOf o

omit [PropertyHash] in
lemma Kept.mem_removed (hf : CollisionFree) (h : obj.Kept) {o : OutPoint} {signal : Nat} :
    (obj.tmpVote o signal (obj.voteInstance o signal)).getHash ∈
        (obj.fileVotes.listVotes.filter p).map (getHash ·) ↔
      ∃ vote ∈ obj.fileVotes.listVotes, vote.masternodeOutpoint = o ∧ vote.getSignal = signal ∧
        p vote = true := by
  simp only [mem_map, mem_filter]
  constructor
  · rintro ⟨vote, ⟨hv, hp⟩, he⟩
    have hs := h.stored vote hv
    have hm := hf _ _ he
    simp only [tmpVote, GovernanceVote.mk.injEq] at hm
    obtain ⟨ho, -, -, hg, ht, -⟩ := hm
    -- the instance counts a vote, and that is the one which was removed
    rcases h.current o signal with hz | ⟨-, vote', hv', ho', hg'⟩
    · have : (obj.voteInstance o signal).nCreationTime = 0 := congrArg (fun r => (ofLex r).1) hz
      exact absurd hs.time_pos (by omega)
    · refine ⟨vote, hv, ho, ?_, hp⟩
      have hs' := h.stored vote' hv'
      rw [← hg', toInt_getSignal hs'.own.signal_range] at hg
      rw [← hg', getSignal, getSignal, hg]
  · rintro ⟨vote, hv, rfl, rfl, hp⟩
    have hs := h.stored vote hv
    exact ⟨vote, ⟨hv, hp⟩, (hs.own.getHash_tmpVote hs.rank).symm⟩

lemma Kept.removeInvalidVotes (hf : CollisionFree) (h : obj.Kept) (mnOutpoint : OutPoint) :
    (obj.removeInvalidVotes ctx mnOutpoint).1.Kept := by
  unfold GovernanceObject.removeInvalidVotes
  split
  · exact h
  rename_i recVote hc
  dsimp only [VoteFile.removeInvalidVotes]
  generalize hp : VoteFile.invalidOf ctx mnOutpoint
    (decide (obj.nObjectType = GOVERNANCE_OBJECT_PROPOSAL)) = p
  have hof : ∀ vote, p vote = true → vote.masternodeOutpoint = mnOutpoint := by
    intro vote hv
    rw [← hp, VoteFile.invalidOf, Bool.and_eq_true, decide_eq_true_eq] at hv
    exact hv.1
  by_cases he : ((obj.fileVotes.listVotes.filter p).map (getHash ·)).isEmpty
  · -- nothing was removed
    rw [if_pos he]
    have ha : ∀ vote ∈ obj.fileVotes.listVotes, p vote = false := by
      simpa using he
    refine h.keepIf rfl rfl (fun _ _ _ => rfl) fun o signal => .inr ⟨rfl, fun vote hv _ _ => ?_⟩
    simp [ha vote hv]
  rw [if_neg he]
  generalize hm : recVote.filter _ = insts
  -- the instances of removed votes are gone
  have hi : ∀ signal, (insts[signal]?).getD {} =
      if ∃ vote ∈ obj.fileVotes.listVotes, vote.masternodeOutpoint = mnOutpoint ∧
        vote.getSignal = signal ∧ p vote = true then {} else obj.voteInstance mnOutpoint signal := by
    intro signal
    rw [← if_congr (h.mem_removed hf) rfl rfl, ← hm, ExtTreeMap.getElem?_filter',
      voteInstance, hc, Option.getD_some]
    cases recVote[signal]? with
    | none => simp
    | some i =>
      by_cases hin : (obj.tmpVote mnOutpoint signal i).getHash ∈
          (obj.fileVotes.listVotes.filter p).map (getHash ·)
      · simp [Option.filter, hin]
      · simp [Option.filter, hin]
  have hn : ∀ o signal, (((if insts.isEmpty then obj.mapCurrentMNVotes.erase mnOutpoint
      else obj.mapCurrentMNVotes.insert mnOutpoint insts)[o]?.getD ∅)[signal]?).getD {} =
      if o = mnOutpoint then (insts[signal]?).getD {} else obj.voteInstance o signal := by
    intro o signal
    by_cases hnn : insts.isEmpty
    · rw [if_pos hnn, Maps.getElem?_erase, ExtTreeMap.isEmpty_iff.1 hnn]
      split_ifs <;> simp [voteInstance]
    · rw [if_neg hnn, Maps.getElem?_insert]
      split_ifs <;> simp [voteInstance]
  refine h.keepIf rfl rfl (fun vote hv hk => ?_) fun o signal => ?_
  · refine (hn _ _).trans ?_
    split_ifs with ho
    · rw [ho, hi, if_neg]
      rintro ⟨vote', hv', ho', hs, hp'⟩
      rw [h.unique hv' hv (ho'.trans ho.symm) hs] at hp'
      simp [hp'] at hk
    · rfl
  · by_cases ho : o = mnOutpoint
    · subst ho
      by_cases hr : ∃ vote ∈ obj.fileVotes.listVotes, vote.masternodeOutpoint = o ∧
          vote.getSignal = signal ∧ p vote = true
      · left
        exact (hn o signal).trans (by rw [if_pos rfl, hi, if_pos hr])
      · right
        refine ⟨(hn o signal).trans (by rw [if_pos rfl, hi, if_neg hr]), ?_⟩
        intro vote hv ho hs
        by_contra hk
        exact hr ⟨vote, hv, ho, hs, by simpa using hk⟩
    · right
      refine ⟨(hn o signal).trans (if_neg ho), fun vote _ hq _ => ?_⟩
      by_contra hk
      exact ho (hq ▸ hof vote (by simpa using hk))

end Kept

section Runs
variable {obj : GovernanceObject}

lemma nHash_clearMasternodeVotes (ctx : GovernanceContext) (obj : GovernanceObject) :
    (obj.clearMasternodeVotes ctx).nHash = obj.nHash := by
  unfold clearMasternodeVotes
  refine List.foldlRecOn (motive := fun s : GovernanceObject => s.nHash = obj.nHash) _ _ rfl
    fun s hs o _ => ?_
  unfold clearVotesOf
  split_ifs
  · exact hs
  · exact hs

lemma nHash_handle (obj : GovernanceObject) (ev : ObjectEvent) :
    (obj.handle ev).nHash = obj.nHash := by
  cases ev with
  | processVote ctx fRateChecksEnabled vote => exact nHash_processVote ..
  | clearMasternodeVotes ctx => exact nHash_clearMasternodeVotes ctx obj
  | removeInvalidVotes ctx mnOutpoint =>
    unfold handle removeInvalidVotes
    dsimp only
    split
    · rfl
    · split_ifs <;> rfl

lemma Kept.handle (hf : CollisionFree) (h : obj.Kept) {ev : ObjectEvent}
    (ho : obj.OwnEvent ev) (hu : obj.Untied ev) : (obj.handle ev).Kept := by
  cases ev with
  | processVote ctx fRateChecksEnabled vote => exact h.processVote ho hu
  | clearMasternodeVotes ctx => exact h.clearMasternodeVotes
  | removeInvalidVotes ctx mnOutpoint => exact h.removeInvalidVotes hf mnOutpoint

omit [PropertyHash] in
lemma Fresh.kept (h : obj.Fresh) : obj.Kept :=
  ⟨by simp [h.listVotes], fun o signal => .inl (by simp [voteInstance, h.mapCurrentMNVotes]; rfl)⟩

/-- If no vote has the time of the current one, the vote file and the map of current votes
describe the same votes after every run, and the file can be replayed. -/
theorem agrees_of_run (hfree : CollisionFree) (hfresh : obj.Fresh) {events : List ObjectEvent}
    (hown : ∀ event ∈ events, obj.OwnEvent event)
    (huntied : ∀ pre event post, events = pre ++ event :: post →
      (pre.foldl handle obj).Untied event) : (events.foldl handle obj).SameStores ∧
      (events.foldl handle obj).Replays := by
  suffices hk : (events.foldl handle obj).nHash = obj.nHash ∧ (events.foldl handle obj).Kept from
    ⟨hk.2.sameStores, hk.2.replays hfree⟩
  induction events using List.reverseRecOn with
  | nil => exact ⟨rfl, hfresh.kept⟩
  | append_singleton events event ih =>
    obtain ⟨hh, hk⟩ := ih (fun e he => hown e (List.mem_append_left _ he))
      fun pre e post hq => huntied pre e (post ++ [event]) (by simp [hq])
    rw [List.foldl_append, List.foldl_cons, List.foldl_nil]
    refine ⟨(nHash_handle _ event).trans hh, hk.handle hfree ?_ (huntied events event [] rfl)⟩
    have hv := hown event (by simp)
    cases event with
    | processVote ctx fRateChecksEnabled vote =>
      exact ⟨hv.parent.trans hh.symm, hv.outcome_range, hv.signal_range⟩
    | clearMasternodeVotes ctx => trivial
    | removeInvalidVotes ctx mnOutpoint => trivial

end Runs

section Rejected
variable {obj : GovernanceObject} {o : OutPoint} {signal : Nat}

omit [PropertyHash]

lemma emplaceRecord_eq_self (h : o ∈ obj.mapCurrentMNVotes) : obj.emplaceRecord o = obj := by
  have hm : obj.mapCurrentMNVotes.insertIfNew o ∅ = obj.mapCurrentMNVotes := by
    ext1 k
    rw [ExtTreeMap.getElem?_insertIfNew, if_neg fun hn => hn.2 h]
  rw [emplaceRecord, hm]

lemma emplaceInstance_eq_self {recVote : VoteRecord} (h : obj.mapCurrentMNVotes[o]? = some recVote)
    (hs : signal ∈ recVote) : obj.emplaceInstance o signal = obj := by
  have hr : recVote.insert signal (obj.voteInstance o signal) = recVote := by
    ext1 k
    obtain ⟨i, hi⟩ := ExtTreeMap.mem_iff_isSome_getElem?.1 hs |> Option.isSome_iff_exists.1
    rw [Maps.getElem?_insert]
    split_ifs with hk
    · rw [hk, voteInstance, h, Option.getD_some, hi, Option.getD_some]
    · rfl
  have hm : obj.mapCurrentMNVotes.insert o recVote = obj.mapCurrentMNVotes := by
    ext1 k
    rw [Maps.getElem?_insert]
    split_ifs with hk
    · rw [hk, h]
    · rfl
  rw [emplaceInstance, setInstance, h, Option.getD_some, hr, hm]

end Rejected

/-- The object has an instance for the vote, or a record if its signal has no instances. -/
def HasPlace (obj : GovernanceObject) (vote : GovernanceVote) : Prop :=
  ∃ recVote, obj.mapCurrentMNVotes[vote.masternodeOutpoint]? = some recVote ∧
    (vote.getSignal ∈ recVote ∨ vote.getSignal = VOTE_SIGNAL_NONE ∨
      MAX_SUPPORTED_VOTE_SIGNAL < vote.getSignal)

lemma hasPlace_processVote (ctx : GovernanceContext) (checks : Bool) (obj : GovernanceObject)
    (vote : GovernanceVote) (hf : obj.fileVotes.hasVote vote.getHash = false)
    (hn : (ctx.mnList.getMNByCollateral vote.masternodeOutpoint).isSome) :
    (obj.processVote ctx checks vote).object.HasPlace vote := by
  obtain ⟨dmn, hn⟩ := Option.isSome_iff_exists.1 hn
  have hr : ∃ recVote, (obj.emplaceRecord vote.masternodeOutpoint).mapCurrentMNVotes[
      vote.masternodeOutpoint]? = some recVote := by
    rw [← Option.isSome_iff_exists, ← ExtTreeMap.mem_iff_isSome_getElem?]
    simp [emplaceRecord]
  have hi : ∀ (obj : GovernanceObject) (i : VoteInstance),
      (obj.setInstance vote.masternodeOutpoint vote.getSignal i).HasPlace vote := fun obj i =>
    ⟨_, by rw [setInstance, Maps.getElem?_insert, if_pos rfl], .inl (by simp)⟩
  unfold processVote
  rw [if_neg (by simp [hf])]
  dsimp only
  rw [hn]
  dsimp only
  split_ifs with hg hm
  · exact hr.imp fun recVote hr => ⟨hr, .inr (.inl hg)⟩
  · exact hr.imp fun recVote hr => ⟨hr, .inr (.inr hm)⟩
  all_goals exact hi _ _

/-- A rejected vote leaves no trace except among the orphans exactly if it is in the vote file, its
masternode is not known, or the object has a place for it. -/
theorem processVote_rejected (ctx : GovernanceContext) (checks : Bool) (obj : GovernanceObject)
    (vote : GovernanceVote) (hr : (obj.processVote ctx checks vote).accepted = false) :
    ((obj.processVote ctx checks vote).object = obj ∨
      ctx.mnList.getMNByCollateral vote.masternodeOutpoint = none ∧
      ∃ orphans, (obj.processVote ctx checks vote).object =
        { obj with cmmapOrphanVotes := orphans }) ↔
    obj.fileVotes.hasVote vote.getHash ∨
      ctx.mnList.getMNByCollateral vote.masternodeOutpoint = none ∨ obj.HasPlace vote := by
  by_cases hf : obj.fileVotes.hasVote vote.getHash
  · refine iff_of_true (.inl ?_) (.inl hf)
    rw [processVote, if_pos hf]
    rfl
  cases hn : ctx.mnList.getMNByCollateral vote.masternodeOutpoint with
  | none =>
    refine iff_of_true (.inr ⟨rfl, ?_⟩) (.inr (.inl rfl))
    simp only [processVote, if_neg hf, hn]
    exact ⟨_, rfl⟩
  | some dmn =>
    constructor
    · rintro (he | ⟨hx, -⟩)
      · exact .inr (.inr (he ▸ hasPlace_processVote ctx checks obj vote (by simpa using hf)
          (by simp [hn])))
      · cases hx
    · rintro (hx | hx | ⟨recVote, hrec, hs⟩)
      · exact absurd hx hf
      · cases hx
      have ho : vote.masternodeOutpoint ∈ obj.mapCurrentMNVotes := by
        simp [ExtTreeMap.mem_iff_isSome_getElem?, hrec]
      have he := emplaceRecord_eq_self ho
      simp only [processVote, if_neg hf, hn, he] at hr ⊢
      refine .inl ?_
      split_ifs at hr ⊢ with hg hm
      · rfl
      · rfl
      all_goals have hi := emplaceInstance_eq_self hrec (hs.resolve_right (by tauto))
      all_goals first | exact hi | cases hr

end GovernanceObject
end Trivechain.Governance

namespace Trivechain.Governance.OneVoter
open Bls Evo GovernanceObject

local instance contentHash : VoteHash :=
  ⟨fun o parent signal outcome time => Encodable.encode (o, parent, signal, outcome, time)⟩

local instance propertyHash : PropertyHash := encodingHash

lemma collisionFree : CollisionFree := by
  intro vote vote' h
  have h := Encodable.encode_injective h
  simp only [Prod.mk.injEq] at h
  obtain ⟨ho, hp, hs, hu, ht⟩ := h
  simp [ho, hp, hs, hu, ht]

def dmn : DeterministicMN :=
  ⟨1, 0, ⟨5, 0⟩, 0, { keyIDOwner := 3, keyIDVoting := 4, pubKeyOperator := some 6 }⟩

def ctx : GovernanceContext where
  mnList := (DeterministicMNList.addMN {} dmn).toOption.getD {}
  nNow := 1000
  nGovernanceMinQuorum := 1
  checkKeyIDSignature _ _ := true
  checkOperatorSignature _ _ := true
  isValidLocally _ := true
  addNewTrigger _ := true

def vote (outcome time : Int) : GovernanceVote where
  masternodeOutpoint := ⟨5, 0⟩
  nParentHash := 9
  nVoteOutcome := outcome
  nVoteSignal := 1
  nTime := time

lemma nodup_noVotes : (List.map (GovernanceVote.getHash ·) []).Nodup := List.nodup_nil

lemma pairwise_noOrphans : List.Pairwise (fun a b : OutPoint × VoteTimePair =>
    a.1 = b.1 → a.2.lt b.2 = true ∨ b.2.lt a.2 = true) [] := .nil

def proposal : GovernanceObject where
  nHash := 9
  nObjectType := GOVERNANCE_OBJECT_PROPOSAL
  cmmapOrphanVotes := { distinct := pairwise_noOrphans }
  fileVotes := { nodup := nodup_noVotes }

lemma fresh : proposal.Fresh := ⟨rfl, rfl⟩

/-- A valid vote with a time before 1970 is not counted, even if it is the only one. -/
theorem early_vote_not_counted : ValidFor ctx proposal (vote 1 (-1)) ∧
      ((proposal.processVotes ctx [vote 1 (-1)]).voteInstance ⟨5, 0⟩ 1).eOutcome ≠
        (vote 1 (-1)).getOutcome ∧ (proposal.processVotes ctx [vote 1 (-1)]).getYesCount 1 = 0 :=
  ⟨⟨rfl, by decide +kernel, by decide +kernel⟩, by decide +kernel, by decide +kernel⟩

theorem counts_of_tie : SameCounts (proposal.processVotes ctx [vote 1 900, vote 2 900])
      (proposal.processVotes ctx [vote 2 900, vote 1 900]) := by
  refine (counts_of_perm collisionFree (List.Perm.swap _ _ _) fun w hw => ?_).1
  rcases List.mem_pair.1 hw with rfl | rfl
  · exact ⟨rfl, by decide +kernel, by decide +kernel⟩
  · exact ⟨rfl, by decide +kernel, by decide +kernel⟩

lemma own (outcome time : Int) (h : -2 ^ 31 ≤ outcome ∧ outcome < 2 ^ 31) :
    proposal.OwnEvent (.processVote ctx false (vote outcome time)) :=
  ⟨rfl, h, (by decide : -2 ^ 31 ≤ (1 : Int) ∧ (1 : Int) < 2 ^ 31)⟩

/-- The vote file keeps two votes of the same time. -/
theorem tie_kept_twice : ∃ events : List ObjectEvent, (∀ event ∈ events, proposal.OwnEvent event) ∧
      ¬ (events.foldl handle proposal).SameStores := by
  refine ⟨[.processVote ctx false (vote 1 900), .processVote ctx false (vote 2 900)], ?_, ?_⟩
  · simp only [List.forall_mem_cons]
    exact ⟨own 1 900 (by decide), own 2 900 (by decide), by simp⟩
  intro hs
  have hc : (([ObjectEvent.processVote ctx false (vote 1 900),
      .processVote ctx false (vote 2 900)].foldl handle
        proposal).voteInstance ⟨5, 0⟩ 1).nCreationTime = 900 := by decide +kernel
  have ht : (([ObjectEvent.processVote ctx false (vote 1 900),
      .processVote ctx false (vote 2 900)].foldl handle
        proposal).fileVotes.votesFor ⟨5, 0⟩ 1).length = 2 := by decide +kernel
  have hp := hs ⟨5, 0⟩ 1
  rw [if_pos (by rw [hc]; decide)] at hp
  obtain ⟨w, hw, -⟩ := hp
  rw [hw] at ht
  cases ht

theorem agrees_of_two_votes : ([ObjectEvent.processVote ctx false (vote 1 900),
      .processVote ctx false (vote 2 950)].foldl handle proposal).SameStores ∧
    ([ObjectEvent.processVote ctx false (vote 1 900),
      .processVote ctx false (vote 2 950)].foldl handle proposal).Replays := by
  refine agrees_of_run collisionFree fresh ?_ fun pre event post he => ?_
  · simp only [List.forall_mem_cons]
    exact ⟨own 1 900 (by decide), own 2 950 (by decide), by simp⟩
  · -- the time of the current vote is 0 first and 900 then
    rcases pre with _ | ⟨first, _ | ⟨second, pre⟩⟩
    · obtain ⟨rfl, -⟩ := List.cons.inj he
      intro ht
      exact absurd ht (by decide +kernel)
    · obtain ⟨rfl, hr⟩ := List.cons.inj he
      obtain ⟨rfl, -⟩ := List.cons.inj hr
      intro ht
      exact absurd ht (by decide +kernel)
    · simp at he

/-- A rejected vote enters its masternode into the map. -/
theorem rejected_vote_recorded :
    let r := proposal.processVote ctx false { vote 1 900 with nVoteSignal := 0 }
    r.accepted = false ∧ ⟨5, 0⟩ ∈ r.object.mapCurrentMNVotes ∧
      ⟨5, 0⟩ ∉ proposal.mapCurrentMNVotes := by decide +kernel

theorem obsolete_vote_unrecorded :
    let obj := (proposal.processVote ctx false (vote 1 900)).object
    (obj.processVote ctx false (vote 2 800)).object = obj := by
  intro obj
  have ht : (vote 2 800).getSignal = 1 := by decide
  have hm : obj.mapCurrentMNVotes[(⟨5, 0⟩ : OutPoint)]?.any (1 ∈ ·) = true := by decide +kernel
  obtain ⟨recVote, hc, hs⟩ := (Option.any_eq_true _ _).1 hm
  have h := (processVote_rejected ctx false obj (vote 2 800) (by decide +kernel)).2
    (.inr (.inr ⟨recVote, hc, .inl (ht ▸ of_decide_eq_true hs)⟩))
  exact h.resolve_right fun hn => absurd (congrArg Option.isSome hn.1) (by decide +kernel)

end Trivechain.Governance.OneVoter
