import Trivechain.Governance.Object

/-!
# The governance manager

Votes that arrive before their object wait in `cmmapOrphanVotes`. `AddGovernanceObject` puts a copy
of the new object into `mapObjects` and then replays the waiting votes, without rate checks, on the
object it was called with. A vote accepted there leaves the cache, and the copy in `mapObjects`
never gets it.
-/

namespace Trivechain.Governance
open Bls Evo
open Std (ExtTreeMap)

def MAX_CACHE_SIZE : Nat := 1000000

structure GovernanceManager [VoteHash] where
  mapObjects : ExtTreeMap Uint256 GovernanceObject := ∅
  cmapInvalidVotes : CacheMap Uint256 GovernanceVote := { nMaxSize := MAX_CACHE_SIZE }
  cmmapOrphanVotes : CacheMultiMap Uint256 VoteTimePair VoteTimePair.lt :=
    { nMaxSize := MAX_CACHE_SIZE }

variable [VoteHash] [PropertyHash] (ctx : GovernanceContext)

namespace GovernanceManager
variable (m : GovernanceManager)

def addInvalidVote (vote : GovernanceVote) : GovernanceManager :=
  { m with cmapInvalidVotes := (m.cmapInvalidVotes.insert vote.getHash vote).1 }

def eraseOrphanVote (nHash : Uint256) (pairVote : VoteTimePair) : GovernanceManager :=
  { m with cmmapOrphanVotes := m.cmmapOrphanVotes.erase nHash pairVote }

def checkOrphanVote (nHash : Uint256) (s : GovernanceManager × GovernanceObject)
    (pairVote : VoteTimePair) : GovernanceManager × GovernanceObject :=
  if pairVote.2 < ctx.nNow then (s.1.eraseOrphanVote nHash pairVote, s.2)
  else
    let r := s.2.processVote ctx false pairVote.1
    let m := if r.invalidVote then s.1.addInvalidVote pairVote.1 else s.1
    (if r.accepted then m.eraseOrphanVote nHash pairVote else m, r.object)

/-- `CheckOrphanVotes`: the manager, and the object that was passed by reference. -/
def checkOrphanVotes (govobj : GovernanceObject) : GovernanceManager × GovernanceObject :=
  (m.cmmapOrphanVotes.getAll govobj.nHash).foldl (checkOrphanVote ctx govobj.nHash) (m, govobj)

def storeObject (govobj : GovernanceObject) : GovernanceManager :=
  { m with mapObjects := m.mapObjects.insert govobj.nHash govobj }

/-- `AddGovernanceObject`: the manager, and the object that was passed by reference. -/
def addGovernanceObject (govobj : GovernanceObject) : GovernanceManager × GovernanceObject :=
  let govobj := govobj.updateSentinelVariables ctx
  if !ctx.isValidLocally govobj then (m, govobj)
  else if (m.mapObjects[govobj.nHash]?).isSome then (m, govobj)
  else if govobj.nObjectType = GOVERNANCE_OBJECT_TRIGGER ∧ !ctx.addNewTrigger govobj.nHash then
    -- the copy in the map is marked for deletion
    (m.storeObject { govobj with
      fCachedDelete := true
      nDeletionTime := if govobj.nDeletionTime = 0 then ctx.nNow else govobj.nDeletionTime },
      govobj)
  else (m.storeObject govobj).checkOrphanVotes ctx govobj

/-- `AddGovernanceObject` stores the object and gets to the waiting votes. -/
structure Accepts (govobj : GovernanceObject) : Prop where
  isValidLocally : ctx.isValidLocally (govobj.updateSentinelVariables ctx)
  isNew : m.mapObjects[govobj.nHash]? = none
  trigger : govobj.nObjectType = GOVERNANCE_OBJECT_TRIGGER → ctx.addNewTrigger govobj.nHash

end GovernanceManager

open GovernanceManager

namespace GovernanceObject
variable (obj : GovernanceObject)

section

omit [PropertyHash]

@[simp] lemma updateSentinelVariables_nHash :
    (obj.updateSentinelVariables ctx).nHash = obj.nHash := by
  unfold updateSentinelVariables; dsimp only; split_ifs <;> rfl

lemma sameVotes_updateSentinelVariables : SameVotes obj (obj.updateSentinelVariables ctx) := by
  unfold updateSentinelVariables; dsimp only; split_ifs <;> exact ⟨rfl, rfl, fun _ _ => rfl⟩

end

def Counts (vote : GovernanceVote) : Prop :=
  obj.fileVotes.hasVote vote.getHash ∧
    (obj.voteInstance vote.masternodeOutpoint vote.getSignal).eOutcome = vote.getOutcome ∧
    (obj.voteInstance vote.masternodeOutpoint vote.getSignal).nCreationTime = vote.nTime

end GovernanceObject

open GovernanceObject

namespace GovernanceManager
variable {ctx} {m : GovernanceManager} {obj0 : GovernanceObject} {nHash : Uint256}
  {s : GovernanceManager × GovernanceObject} {pairVote : VoteTimePair}

omit [PropertyHash] in
lemma mem_eraseOrphanVote {p : VoteTimePair}
    (h : (nHash, p) ∈ (m.eraseOrphanVote nHash pairVote).cmmapOrphanVotes.listItems) :
    (nHash, p) ∈ m.cmmapOrphanVotes.listItems ∧ p ≠ pairVote := by
  obtain ⟨hm, hn⟩ := (m.cmmapOrphanVotes.mem_listItems_erase fun p q _ _ _ =>
    VoteTimePair.equiv_eq_true p q).1 h
  exact ⟨hm, fun _ => hn ⟨rfl, VoteTimePair.equiv_eq_true _ _⟩⟩

variable (ctx) in
lemma checkOrphanVote_fst (nHash : Uint256) (s : GovernanceManager × GovernanceObject)
    (pairVote : VoteTimePair) :
    (checkOrphanVote ctx nHash s pairVote).1.mapObjects = s.1.mapObjects ∧
      ∀ p, (nHash, p) ∈ (checkOrphanVote ctx nHash s pairVote).1.cmmapOrphanVotes.listItems →
        (nHash, p) ∈ s.1.cmmapOrphanVotes.listItems := by
  unfold checkOrphanVote
  dsimp only
  split_ifs
  · exact ⟨rfl, fun p hp => (mem_eraseOrphanVote hp).1⟩
  · exact ⟨rfl, fun p hp => (mem_eraseOrphanVote hp).1⟩
  · exact ⟨rfl, fun p hp => (mem_eraseOrphanVote hp).1⟩
  · exact ⟨rfl, fun p hp => hp⟩
  · exact ⟨rfl, fun p hp => hp⟩

lemma foldl_checkOrphanVote_fst (ps : List VoteTimePair) :
    ∀ s : GovernanceManager × GovernanceObject,
      (ps.foldl (checkOrphanVote ctx nHash) s).1.mapObjects = s.1.mapObjects ∧
      ∀ p, (nHash, p) ∈ (ps.foldl (checkOrphanVote ctx nHash) s).1.cmmapOrphanVotes.listItems →
        (nHash, p) ∈ s.1.cmmapOrphanVotes.listItems := by
  induction ps with
  | nil => exact fun s => ⟨rfl, fun p hp => hp⟩
  | cons q ps ih =>
    intro s
    obtain ⟨ho, hm⟩ := ih (checkOrphanVote ctx nHash s q)
    obtain ⟨ho', hm'⟩ := checkOrphanVote_fst ctx nHash s q
    exact ⟨ho.trans ho', fun p hp => hm' p (hm p hp)⟩

lemma not_mem_of_acceptable (hn : ctx.nNow ≤ pairVote.2)
    (ha : Acceptable ctx false s.2 pairVote.1) : (nHash, pairVote) ∉
      (checkOrphanVote ctx nHash s pairVote).1.cmmapOrphanVotes.listItems := by
  intro hm
  unfold checkOrphanVote at hm
  dsimp only at hm
  rw [if_neg (by omega), if_pos (accepted_processVote.2 ha)] at hm
  exact (mem_eraseOrphanVote hm).2 rfl

lemma sameVotes_of_not_acceptable
    (h : ¬ (ctx.nNow ≤ pairVote.2 ∧ Acceptable ctx false s.2 pairVote.1)) :
    SameVotes s.2 (checkOrphanVote ctx nHash s pairVote).2 := by
  unfold checkOrphanVote
  dsimp only
  by_cases he : pairVote.2 < ctx.nNow
  · rw [if_pos he]
    exact .refl _
  · rw [if_neg he]
    rcases processVote_cases ctx s.2 false pairVote.1 with ⟨ha, -⟩ | ⟨-, -, hs⟩
    · exact absurd ⟨by omega, ha⟩ h
    · exact hs

lemma exists_lost (nHash : Uint256) (ps : List VoteTimePair) : ∀ s :
  GovernanceManager × GovernanceObject,
    SameVotes obj0 s.2 → (∃ p ∈ ps, ctx.nNow ≤ p.2 ∧ Acceptable ctx false obj0 p.1) →
    ∃ p ∈ ps, (ctx.nNow ≤ p.2 ∧ Acceptable ctx false obj0 p.1) ∧
      (nHash, p) ∉ (ps.foldl (checkOrphanVote ctx nHash) s).1.cmmapOrphanVotes.listItems := by
  induction ps with
  | nil => simp
  | cons q ps ih =>
    intro s hs he
    by_cases hq : ctx.nNow ≤ q.2 ∧ Acceptable ctx false s.2 q.1
    · refine ⟨q, List.mem_cons_self, ⟨hq.1, hs.acceptable_iff.1 hq.2⟩, fun hm => ?_⟩
      exact not_mem_of_acceptable hq.1 hq.2 ((foldl_checkOrphanVote_fst ps _).2 q hm)
    · obtain ⟨p, hp, ha⟩ := he
      have hps : p ∈ ps := by
        rcases List.mem_cons.1 hp with rfl | hp
        · exact absurd ⟨ha.1, hs.acceptable_iff.2 ha.2⟩ hq
        · exact hp
      obtain ⟨p', hp', hl⟩ := ih _ (hs.trans (sameVotes_of_not_acceptable hq)) ⟨p, hps, ha⟩
      exact ⟨p', List.mem_cons_of_mem _ hp', hl⟩

lemma Accepts.addGovernanceObject_eq {govobj : GovernanceObject} (h : m.Accepts ctx govobj) :
    m.addGovernanceObject ctx govobj =
      (m.storeObject (govobj.updateSentinelVariables ctx)).checkOrphanVotes ctx
        (govobj.updateSentinelVariables ctx) := by
  unfold addGovernanceObject
  dsimp only
  rw [if_neg (by simp [h.isValidLocally]), if_neg (by simp [h.isNew]), if_neg]
  rintro ⟨hy, ht⟩
  rw [(govobj.sameVotes_updateSentinelVariables ctx).nObjectType] at hy
  rw [updateSentinelVariables_nHash, h.trigger hy] at ht
  cases ht

end GovernanceManager

/-- Every waiting vote that has not expired and that the object accepts is counted in the stored
object afterwards or still waits. -/
def OrphanVotesKept (m : GovernanceManager) (govobj : GovernanceObject) : Prop :=
  ∀ p ∈ m.cmmapOrphanVotes.getAll govobj.nHash, ctx.nNow ≤ p.2 →
    (govobj.processVote ctx false p.1).accepted = true →
    (∃ obj, (m.addGovernanceObject ctx govobj).1.mapObjects[govobj.nHash]? = some obj ∧
      obj.Counts p.1) ∨
    p ∈ (m.addGovernanceObject ctx govobj).1.cmmapOrphanVotes.getAll govobj.nHash

/-- Votes are kept only when there are none that the object accepts. -/
theorem orphanVotesKept_iff (m : GovernanceManager) (govobj : GovernanceObject)
    (h : m.Accepts ctx govobj) : OrphanVotesKept ctx m govobj ↔
      ∀ p ∈ m.cmmapOrphanVotes.getAll govobj.nHash, ctx.nNow ≤ p.2 →
        (govobj.processVote ctx false p.1).accepted = false := by
  have hs := govobj.sameVotes_updateSentinelVariables ctx
  constructor
  · intro hk p hp hn
    by_contra ha
    rw [Bool.not_eq_false, accepted_processVote] at ha
    obtain ⟨q, hq, ⟨hqn, hqc⟩, hl⟩ := exists_lost
      govobj.nHash (m.cmmapOrphanVotes.getAll govobj.nHash)
      (m.storeObject (govobj.updateSentinelVariables ctx), govobj.updateSentinelVariables ctx)
      hs ⟨p, hp, hn, ha⟩
    have hq' := hk q hq hqn (accepted_processVote.2 hqc)
    rw [h.addGovernanceObject_eq, checkOrphanVotes,
      updateSentinelVariables_nHash, CacheMultiMap.mem_getAll] at hq'
    rcases hq' with ⟨obj, ho, hc⟩ | hh
    · -- the stored object is the one before the replay, which does not have the vote
      rw [(foldl_checkOrphanVote_fst _ _).1] at ho
      have ht : obj = govobj.updateSentinelVariables ctx := by
        simpa [storeObject, eq_comm] using ho
      have hf := hc.1
      rw [ht, hs.fileVotes, hqc.isNew] at hf
      cases hf
    · exact hl hh
  · intro hnn p hp hn ha
    rw [hnn p hp hn] at ha
    cases ha

end Trivechain.Governance

namespace Trivechain.Governance.WaitingVote
open Bls Evo

local instance : PropertyHash := encodingHash
local instance : VoteHash := ⟨fun _ _ _ _ nTime => nTime.toNat⟩

def dmn : DeterministicMN :=
  ⟨1, 0, ⟨5, 0⟩, 0, { keyIDOwner := 3, keyIDVoting := 4, pubKeyOperator := some 6 }⟩

def ctx : GovernanceContext where
  mnList := (DeterministicMNList.addMN {} dmn).toOption.getD {}
  nNow := 1000
  nGovernanceMinQuorum := 1
  checkKeyIDSignature _ _ := true
  checkOperatorSignature _ _ := true
  isValidLocally _ := true
  addNewTrigger _ := true

def vote : GovernanceVote where
  masternodeOutpoint := ⟨5, 0⟩
  nParentHash := 9
  nVoteOutcome := 1
  nVoteSignal := 1
  nTime := 900

def proposal : GovernanceObject := { nHash := 9, nObjectType := GOVERNANCE_OBJECT_PROPOSAL }

def manager (expires : Int) : GovernanceManager where
  cmmapOrphanVotes :=
    (({ nMaxSize := MAX_CACHE_SIZE } : CacheMultiMap Uint256 VoteTimePair VoteTimePair.lt).insert
      9 (vote, expires)).1

lemma accepts (expires : Int) : (manager expires).Accepts ctx proposal where
  isValidLocally := rfl
  isNew := by simp [manager]
  trigger _ := rfl

theorem expired_vote_kept : OrphanVotesKept ctx (manager 999) proposal :=
  (orphanVotesKept_iff ctx (manager 999) proposal (accepts 999)).2 (by decide +kernel)

/-- The proposal accepts the vote; it is in no vote file afterwards and does not wait. -/
theorem waiting_vote_lost :
    (manager 1500).Accepts ctx proposal ∧ ¬ OrphanVotesKept ctx (manager 1500) proposal := by
  refine ⟨accepts 1500, fun hk => ?_⟩
  have hs : ((manager 1500).addGovernanceObject ctx proposal).1.mapObjects[(9 : Uint256)]?.map
      (fun obj => obj.fileVotes.hasVote vote.getHash) = some false := by decide +kernel
  have hh : (vote, 1500) ∉ ((manager 1500).addGovernanceObject ctx
      proposal).1.cmmapOrphanVotes.getAll proposal.nHash := by decide +kernel
  rcases hk (vote, 1500) (by decide +kernel) (by decide) (by decide +kernel) with
    ⟨obj, ho, hc⟩ | hm
  · change _[(9 : Uint256)]? = some obj at ho
    rw [ho, Option.map_some, hc.1] at hs
    cases hs
  · exact hh hm

end Trivechain.Governance.WaitingVote
