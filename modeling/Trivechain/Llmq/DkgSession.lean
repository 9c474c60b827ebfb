import Trivechain.Lib.Maps
import Trivechain.Llmq.Signing

/-!
# Messages of a DKG session

The four kinds of messages of a distributed key generation, and the cheap checks that
`CDKGSession::PreVerifyMessage` makes of each kind before its signature is verified.
-/

namespace Trivechain.Llmq
open Bls List Run
open Std (ExtTreeMap ExtTreeSet)

structure DkgMember where
  proTxHash : Uint256
  pubKeyOperator : Option PubKey
  contributions : ExtTreeSet Uint256 := ∅
  complaints : ExtTreeSet Uint256 := ∅
  justifications : ExtTreeSet Uint256 := ∅
  prematureCommitments : ExtTreeSet Uint256 := ∅

structure DkgSession where
  params : LLMQParams
  /-- the hash of `pindexQuorum` -/
  quorumHash : Uint256
  members : List DkgMember
  verifyVerificationVector : List (Option PubKey) → Bool

def DkgSession.getMember (session : DkgSession) (proTxHash : Uint256) : Option DkgMember :=
  session.members.find? fun member => member.proTxHash = proTxHash

structure DkgContribution where
  llmqType : LLMQType
  quorumHash : Uint256
  proTxHash : Uint256
  vvec : List (Option PubKey)
  /-- one encrypted share per member -/
  blobs : List Nat
  sig : Option Sig
deriving DecidableEq

structure DkgComplaint where
  llmqType : LLMQType
  quorumHash : Uint256
  proTxHash : Uint256
  badMembers : List Bool
  complainForMembers : List Bool
  sig : Option Sig
deriving DecidableEq

structure DkgJustification where
  llmqType : LLMQType
  quorumHash : Uint256
  proTxHash : Uint256
  /-- an index and a secret key share, `none` if the share is not valid -/
  contributions : List (Nat × Option Nat)
  sig : Option Sig
deriving DecidableEq

structure DkgPrematureCommitment where
  llmqType : LLMQType
  quorumHash : Uint256
  proTxHash : Uint256
  validMembers : List Bool
  quorumPublicKey : Option PubKey
  quorumVvecHash : Uint256
  quorumSig : Option Sig
  sig : Option Sig
deriving DecidableEq

def DkgPrematureCommitment.countValidMembers (qc : DkgPrematureCommitment) : Nat :=
  qc.validMembers.count true

/-- The result of `PreVerifyMessage`, with its `retBan`. -/
inductive PreVerify where
  | accepted
  | rejected (ban : Bool)
deriving DecidableEq

/-- A kind of message for the session handler. What passes the first checks is from a member of the
quorum. -/
class DkgMessage (M : Type) where
  proTxHash : M → Uint256
  sig : M → Option Sig
  getSignHash : (List Nat → Uint256) → M → Uint256
  preVerifyMessage : DkgSession → M → PreVerify
  member_of_accepted : ∀ {session m}, preVerifyMessage session m = .accepted →
    (session.getMember (proTxHash m)).isSome

/-- The order that all kinds share: the quorum hash, the member, and checks of their own. -/
def preVerifyWith (session : DkgSession) (quorumHash proTxHash : Uint256)
    (checks : DkgMember → PreVerify) : PreVerify :=
  if quorumHash ≠ session.quorumHash then .rejected false
  else match session.getMember proTxHash with
    | none => .rejected true
    | some member => checks member

lemma member_of_preVerifyWith {ses : DkgSession} {quorumHash proTxHash : Uint256}
    {checks : DkgMember → PreVerify}
    (h : preVerifyWith ses quorumHash proTxHash checks = .accepted) :
    (ses.getMember proTxHash).isSome := by
  unfold preVerifyWith at h
  split at h
  · cases h
  · split at h
    · cases h
    · next hm => rw [hm]; rfl

namespace DkgContribution

def preVerifyMessage (session : DkgSession) (qc : DkgContribution) : PreVerify :=
  preVerifyWith session qc.quorumHash qc.proTxHash fun member =>
    if qc.blobs.length ≠ session.members.length then .rejected true
    else if qc.vvec.length ≠ session.params.threshold then .rejected true
    else if !session.verifyVerificationVector qc.vvec then .rejected true
    -- no further processing if there was more than one valid contribution already
    else if 2 ≤ member.contributions.size then .rejected false
    else .accepted

instance : DkgMessage DkgContribution where
  proTxHash := proTxHash
  sig := sig
  getSignHash hashWriter qc := hashWriter ([qc.llmqType.toNat, qc.quorumHash, qc.proTxHash] ++
    qc.vvec.map (fun k => k.getD 0) ++ qc.blobs)
  preVerifyMessage := preVerifyMessage
  member_of_accepted h := member_of_preVerifyWith h

end DkgContribution

namespace DkgComplaint

def preVerifyMessage (session : DkgSession) (qc : DkgComplaint) : PreVerify :=
  preVerifyWith session qc.quorumHash qc.proTxHash fun member =>
    if qc.badMembers.length ≠ session.params.size then .rejected true
    else if qc.complainForMembers.length ≠ session.params.size then .rejected true
    else if 2 ≤ member.complaints.size then .rejected false
    else .accepted

instance : DkgMessage DkgComplaint where
  proTxHash := proTxHash
  sig := sig
  getSignHash hashWriter qc := hashWriter ([qc.llmqType.toNat, qc.quorumHash, qc.proTxHash] ++
    qc.badMembers.map Bool.toNat ++ qc.complainForMembers.map Bool.toNat)
  preVerifyMessage := preVerifyMessage
  member_of_accepted h := member_of_preVerifyWith h

end DkgComplaint

namespace DkgJustification

def contributionsValid (session : DkgSession) : List Nat → List (Nat × Option Nat) → Bool
  | _, [] => true
  | seen, p :: contributions =>
    if session.members.length < p.1 then false
    else if p.1 ∈ seen then false
    else if p.2.isNone then false
    else contributionsValid session (p.1 :: seen) contributions

def preVerifyMessage (session : DkgSession) (qj : DkgJustification) : PreVerify :=
  preVerifyWith session qj.quorumHash qj.proTxHash fun member =>
    if qj.contributions.isEmpty then .rejected true
    else if !contributionsValid session [] qj.contributions then .rejected true
    else if 2 ≤ member.justifications.size then .rejected false
    else .accepted

/-- The state of a session that justifications change. Members are known by their places. -/
structure Receiver where
  session : DkgSession
  bad : ExtTreeSet Nat := ∅
  weComplain : ExtTreeSet Nat := ∅
  /-- a member, and one that complained about it -/
  complaintsFromOthers : ExtTreeSet (Nat × Uint256) := ∅
  receivedSkContributions : ExtTreeMap Nat Nat := ∅

def Receiver.markBadMember (s : Receiver) (idx : Nat) : Receiver :=
  { s with bad := s.bad.insert idx }

def Receiver.member (s : Receiver) (i : Nat) : Run DkgMember :=
  demand .undefined s.session.members[i]?

variable (myIdx : Option Nat) (verifyShare : Nat → Nat → Option Nat → Bool)

def justified (idx : Nat) (s : Receiver) (p : Nat × Option Nat) : Run Receiver := do
  let member2 ← s.member p.1
  if !verifyShare p.1 idx p.2 then return s.markBadMember idx
  let s := if myIdx = some p.1 then { s with
      receivedSkContributions := s.receivedSkContributions.insert idx (p.2.getD 0)
      weComplain := s.weComplain.erase idx } else s
  return { s with complaintsFromOthers := s.complaintsFromOthers.erase (idx, member2.proTxHash) }

/-- `verifyShare` is the check of a share for one member by another one. -/
def receiveMessage (s : Receiver) (hash : Uint256) (qj : DkgJustification) : Run Receiver := do
  let idx ← demand .undefined (s.session.members.findIdx? (·.proTxHash = qj.proTxHash))
  let member ← s.member idx
  if 2 ≤ member.justifications.size then return s
  let member := { member with justifications := member.justifications.insert hash }
  let s := { s with session := { s.session with members := s.session.members.set idx member } }
  if 1 < member.justifications.size then return s.markBadMember idx
  if idx ∈ s.bad then return s
  let s ← qj.contributions.foldlM (fun s p => do
    let member2 ← s.member p.1
    return if (idx, member2.proTxHash) ∈ s.complaintsFromOthers then s else s.markBadMember idx) s
  if idx ∈ s.bad then return s
  -- the verifications are started
  let s ← qj.contributions.foldlM (fun s p => do
    let _ ← s.member p.1
    return s) s
  qj.contributions.foldlM (justified myIdx verifyShare idx) s

lemma Receiver.member_ok {s : Receiver} {i : Nat} (h : i < s.session.members.length) :
    ∃ member, s.member i = .ok member :=
  ⟨_, by rw [Receiver.member, getElem?_eq_getElem h]; rfl⟩

lemma le_of_contributionsValid {ses : DkgSession} {seen : List Nat}
    {contributions : List (Nat × Option Nat)} (h : contributionsValid ses seen contributions) :
    ∀ p ∈ contributions, p.1 ≤ ses.members.length := by
  induction contributions generalizing seen with
  | nil => simp
  | cons p contributions ih =>
    rw [contributionsValid] at h
    split_ifs at h with hl
    exact forall_mem_cons.2 ⟨not_lt.1 hl, ih h⟩

lemma lt_of_accepted {ses : DkgSession} {qj : DkgJustification}
    (h : qj.preVerifyMessage ses = .accepted)
    (hn : ∀ p ∈ qj.contributions, p.1 ≠ ses.members.length) :
    ∀ p ∈ qj.contributions, p.1 < ses.members.length := by
  intro p hp
  unfold preVerifyMessage preVerifyWith at h
  split at h
  · cases h
  split at h
  · cases h
  · dsimp only at h
    split_ifs at h with _ hv
    exact lt_of_le_of_ne (le_of_contributionsValid (by simpa using hv) p hp) (hn p hp)

/-- The loops of the message return exactly when all indexes are those of members. -/
lemma loop_iff {g : Receiver → Nat × Option Nat → DkgMember → Run Receiver}
    (hg : ∀ s p member, ∃ s', g s p member = .ok s' ∧ s'.session = s.session)
    {contributions : List (Nat × Option Nat)} {s : Receiver} {k : Receiver → Run Receiver}
    (hk : (∀ p ∈ contributions, p.1 < s.session.members.length) →
      ∀ s', s'.session = s.session → ∃ t, k s' = .ok t) :
    (∃ t, (contributions.foldlM (fun s p => s.member p.1 >>= g s p) s >>= k) = .ok t) ↔
      ∀ p ∈ contributions, p.1 < s.session.members.length := by
  induction contributions generalizing s with
  | nil => exact iff_of_true (hk (by simp) s rfl) (by simp)
  | cons p contributions ih =>
    rw [foldlM_cons]
    by_cases hp : p.1 < s.session.members.length
    · obtain ⟨member, hm⟩ := Receiver.member_ok hp
      obtain ⟨s1, hs1, he⟩ := hg s p member
      rw [hm, ok_bind, hs1, ok_bind, ih, he, forall_mem_cons, and_iff_right hp]
      intro h s' hs'
      exact hk (forall_mem_cons.2 ⟨hp, he ▸ h⟩) s' (hs'.trans he)
    · rw [Receiver.member, getElem?_eq_none (not_lt.1 hp)]
      refine iff_of_false ?_ fun h => hp (h p mem_cons_self)
      rintro ⟨t, ht⟩
      cases ht

/-- The sender has sent another justification before, or is marked as bad: the shares are not looked
at. -/
def Ignored (s : Receiver) (hash : Uint256) (qj : DkgJustification) : Prop :=
  ∃ idx member, s.session.members.findIdx? (·.proTxHash = qj.proTxHash) = some idx ∧
    s.session.members[idx]? = some member ∧
    (1 < (member.justifications.insert hash).size ∨ idx ∈ s.bad)

/-- Members are found for all indexes of a message that passes the first checks, unless one is their
number and the shares are looked at. -/
theorem receiveMessage_ok (s : Receiver) (hash : Uint256) {qj : DkgJustification}
    (h : qj.preVerifyMessage s.session = .accepted) :
    (∃ s', receiveMessage myIdx verifyShare s hash qj = .ok s') ↔
      (∀ p ∈ qj.contributions, p.1 ≠ s.session.members.length) ∨ Ignored s hash qj := by
  obtain ⟨idx, hi⟩ : ∃ idx, s.session.members.findIdx? (·.proTxHash = qj.proTxHash) = some idx := by
    rw [← Option.isSome_iff_exists, findIdx?_isSome, any_eq_true, ← find?_isSome]
    exact member_of_preVerifyWith h
  obtain ⟨member, hg⟩ : ∃ member, s.session.members[idx]? = some member :=
    ⟨_, getElem?_eq_getElem (findIdx?_eq_some_iff_getElem.1 hi).1⟩
  have hm : s.member idx = .ok member := by
    rw [Receiver.member, hg]
    rfl
  simp only [receiveMessage, hi, demand_some, ok_bind, hm]
  split_ifs with ht hj hb
  · have hj := ht.trans (ExtTreeSet.size_le_size_insert (k := hash))
    exact iff_of_true ⟨_, rfl⟩ (.inr ⟨idx, member, hi, hg, .inl hj⟩)
  · exact iff_of_true ⟨_, rfl⟩ (.inr ⟨idx, member, hi, hg, .inl hj⟩)
  · exact iff_of_true ⟨_, rfl⟩ (.inr ⟨idx, member, hi, hg, .inr hb⟩)
  have hn : ¬ Ignored s hash qj := by
    rintro ⟨idx', member', hi', hg', hj'⟩
    obtain rfl := Option.some.inj (hi.symm.trans hi')
    obtain rfl := Option.some.inj (hg.symm.trans hg')
    exact absurd hj' (not_or.2 ⟨hj, hb⟩)
  have hl : (∀ p ∈ qj.contributions, p.1 < s.session.members.length) ↔
      ∀ p ∈ qj.contributions, p.1 ≠ s.session.members.length :=
    ⟨fun hl p hp => (hl p hp).ne, lt_of_accepted h⟩
  rw [or_iff_left hn, ← hl]
  refine (loop_iff (fun s p member => ⟨_, rfl, by split_ifs <;> rfl⟩) fun hl s1 hs1 => ?_).trans
    (by simp)
  split_ifs
  · exact ⟨_, rfl⟩
  · refine (loop_iff (fun s p member => ⟨_, rfl, rfl⟩) fun hl s2 hs2 => ?_).2 (hs1 ▸ hl)
    rw [← bind_pure (foldlM _ _ _)]
    refine (loop_iff (fun s p member => ?_) fun _ s3 _ => ⟨s3, rfl⟩).2 (hs2 ▸ hl)
    split_ifs <;> exact ⟨_, rfl, rfl⟩

def oneMember : Receiver :=
  { session := ⟨llmq5_60, 3, [{ proTxHash := 10, pubKeyOperator := some 1 }], fun _ => true⟩ }

def shareFor (idx : Nat) : DkgJustification := ⟨LLMQ_5_60, 3, 10, [(idx, some 5)], some 7⟩

theorem share_received :
    ∃ s', receiveMessage none (fun _ _ _ => true) oneMember 8 (shareFor 0) = .ok s' :=
  (receiveMessage_ok _ _ _ _ (by decide)).2 (.inl (by decide))

/-- The number of members passes the check of the indexes, and is no place of a member. -/
theorem share_past_end : (shareFor 1).preVerifyMessage oneMember.session = .accepted ∧
    receiveMessage none (fun _ _ _ => true) oneMember 8 (shareFor 1) = .error (.fault .undefined) :=
  ⟨by decide, rfl⟩

instance : DkgMessage DkgJustification where
  proTxHash := proTxHash
  sig := sig
  getSignHash hashWriter qj := hashWriter ([qj.llmqType.toNat, qj.quorumHash, qj.proTxHash] ++
    qj.contributions.flatMap fun p => [p.1, p.2.getD 0])
  preVerifyMessage := preVerifyMessage
  member_of_accepted h := member_of_preVerifyWith h

end DkgJustification

namespace DkgPrematureCommitment

def preVerifyMessage (session : DkgSession) (qc : DkgPrematureCommitment) : PreVerify :=
  preVerifyWith session qc.quorumHash qc.proTxHash fun member =>
    if qc.validMembers.length ≠ session.params.size then .rejected true
    else if qc.countValidMembers < session.params.minSize then .rejected true
    else if qc.sig.isNone then .rejected true
    else if qc.quorumSig.isNone then .rejected true
    -- bits beyond the members should not be set
    else if (qc.validMembers.drop session.members.length).any id then .rejected true
    else if 2 ≤ member.prematureCommitments.size then .rejected false
    else .accepted

/-- `CLLMQUtils::BuildCommitmentHash` -/
instance : DkgMessage DkgPrematureCommitment where
  proTxHash := proTxHash
  sig := sig
  getSignHash hashWriter qc := hashWriter ([qc.llmqType.toNat, qc.quorumHash] ++
    qc.validMembers.map Bool.toNat ++ [qc.quorumPublicKey.getD 0, qc.quorumVvecHash])
  preVerifyMessage := preVerifyMessage
  member_of_accepted h := member_of_preVerifyWith h

end DkgPrematureCommitment
end Trivechain.Llmq
