import Trivechain.Llmq.Signing

/-!
# Pending signature shares

`CSigSharesManager::ProcessPendingSigShares` verifies the shares that peers have sent in one batch,
keyed by sign hash and quorum member, and hands all shares of a peer to `ProcessSigShare` unless a
share recorded under one of its keys does not verify. This says nothing about the shares that were
not queued, nor about those queued under a key that another peer had used before.
-/

namespace Trivechain.Llmq
open Bls Prod
open Run BatchVerifier
open List Or

structure SigShare where
  llmqType : LLMQType
  quorumHash : Uint256
  quorumMember : Nat
  id : Uint256
  msgHash : Uint256
  sigShare : Option Sig
deriving DecidableEq

structure SigShareKey where
  signHash : Uint256
  quorumMember : Nat
deriving DecidableEq

namespace SigShareKey

instance : Ord SigShareKey :=
  ⟨compareLex (compareOn SigShareKey.signHash) (compareOn SigShareKey.quorumMember)⟩

instance : Std.TransOrd SigShareKey :=
  inferInstanceAs (Std.TransCmp
    (compareLex (compareOn SigShareKey.signHash) (compareOn SigShareKey.quorumMember)))

instance : Std.LawfulEqOrd SigShareKey where
  eq_of_compare {k k'} h := by
    have h : compareLex (compareOn signHash) (compareOn SigShareKey.quorumMember) k k' = .eq := h
    rw [compareLex, Ordering.then_eq_eq] at h
    cases k
    cases k'
    simp_all [compareOn]

end SigShareKey

/-- What a `CQuorum` knows about its members: registration hashes, who took part in the key
generation, and the verification vector, from which key shares are computed. -/
structure MemberQuorum where
  members : List Uint256
  validMembers : List Bool
  quorumVvec : Option (Uint256 → Option PubKey)
  size_validMembers : members.length ≤ validMembers.length

def MemberQuorum.getPubKeyShare (quorum : MemberQuorum) (memberIdx : Nat) : Option PubKey := do
  let buildPubKeyShare ← quorum.quorumVvec
  let proTxHash ← quorum.members[memberIdx]?
  if quorum.validMembers.getD memberIdx false then buildPubKeyShare proTxHash else none

structure PendingShares where
  byNode : List (NodeId × List SigShare)
  nodup : (byNode.map fst).Nodup

structure ShareContext where
  verify : PubKey → Uint256 → Sig → Bool
  signing : SigningManager
  getQuorum : LLMQType → Uint256 → Option MemberQuorum

structure ShareBatch where
  batchVerifier : BatchVerifier NodeId SigShareKey :=
    { secureVerification := false, perMessageFallback := true }
  banned : List NodeId := []

structure SharesResult where
  processed : List (NodeId × SigShare) := []
  banned : List NodeId := []

section Definitions
variable (ctx : ShareContext)

namespace SigShare

def getSignHash (s : SigShare) : Uint256 :=
  ctx.signing.buildSignHash s.llmqType s.quorumHash s.id s.msgHash

def getKey (s : SigShare) : SigShareKey := ⟨s.getSignHash ctx, s.quorumMember⟩

def hasRecoveredSigForId (s : SigShare) : Bool :=
  ctx.signing.hasRecoveredSigForId s.llmqType s.id

def pubKeyShare (s : SigShare) : Option PubKey := do
  let quorum ← ctx.getQuorum s.llmqType s.quorumHash
  quorum.getPubKeyShare s.quorumMember

def message (s : SigShare) (pubKeyShare : Option PubKey) : Message SigShareKey where
  msgId := s.getKey ctx
  msgHash := s.getSignHash ctx
  sig := s.sigShare
  pubKey := pubKeyShare

end SigShare

/-- The quorums of all collected shares must exist. From then on the lookup in their map is
`getQuorum`. -/
def collectQuorums (shares : List SigShare) : Run Unit :=
  shares.foldlM (fun _ s => Run.ensure (ctx.getQuorum s.llmqType s.quorumHash).isSome) ()

def queueShares (nodeId : NodeId) (b : ShareBatch) : List SigShare → Run ShareBatch
  | [] => return b
  | s :: shares => do
    if s.hasRecoveredSigForId ctx then
      queueShares nodeId b shares
    else if s.sigShare.isNone then
      return { b with banned := b.banned ++ [nodeId] }
    else
      let quorum ← Run.demand .outOfRange (ctx.getQuorum s.llmqType s.quorumHash)
      let pubKeyShare := quorum.getPubKeyShare s.quorumMember
      Run.ensure pubKeyShare.isSome
      let batchVerifier ← b.batchVerifier.pushMessage ctx.verify nodeId (s.message ctx pubKeyShare)
      queueShares nodeId { b with batchVerifier } shares

def processPendingSigSharesFromNode (nodeId : NodeId) (shares : List SigShare)
    (r : SharesResult) : Run SharesResult :=
  shares.foldlM (fun r s => do
    let _ ← Run.demand .outOfRange (ctx.getQuorum s.llmqType s.quorumHash)
    return { r with processed := r.processed ++ [(nodeId, s)] }) r

def finishNode (v : BatchVerifier NodeId SigShareKey) (r : SharesResult)
    (p : NodeId × List SigShare) : Run SharesResult :=
  if p.1 ∈ v.badSources then return { r with banned := r.banned ++ [p.1] }
  else processPendingSigSharesFromNode ctx p.1 p.2 r

def processPendingSigShares (pend : PendingShares) : Run SharesResult := do
  collectQuorums ctx (pend.byNode.flatMap snd)
  let b ← pend.byNode.foldlM (fun b p => queueShares ctx p.1 b p.2) {}
  let v ← b.batchVerifier.verifyAll ctx.verify
  pend.byNode.foldlM (finishNode ctx v) { banned := b.banned }

def SigShare.verifies (s : SigShare) : Bool :=
  verifyInsecure ctx.verify s.sigShare (s.pubKeyShare ctx) (s.getSignHash ctx)

def SigShare.acceptable (s : SigShare) : Bool := s.hasRecoveredSigForId ctx || s.verifies ctx

def OnlyAcceptableProcessed (pend : PendingShares) : Prop :=
  ∀ r, processPendingSigShares ctx pend = .ok r → ∀ q ∈ r.processed, q.2.acceptable ctx

/-- The shares of a peer that get to the verifier: without a recovered signature, before the first
that cannot be deserialised. -/
def queuedShares (shares : List SigShare) : List SigShare :=
  (shares.filter fun s => !s.hasRecoveredSigForId ctx).takeWhile fun s => s.sigShare.isSome

def queued (pend : PendingShares) : List (NodeId × SigShare) :=
  pend.byNode.flatMap fun p => (queuedShares ctx p.2).map fun s => (p.1, s)

/-- The share that is recorded under a key: the first one queued with it, by whichever peer. -/
def firstQueued (pend : PendingShares) (key : SigShareKey) : Option SigShare :=
  ((queued ctx pend).find? fun q => q.2.getKey ctx = key).map snd

def Caught (pend : PendingShares) (shares : List SigShare) : Prop :=
  ∃ s ∈ queuedShares ctx shares, ∃ s', firstQueued ctx pend (s.getKey ctx) = some s' ∧
    s'.verifies ctx = false

def KeyMissing (pend : PendingShares) : Prop :=
  (∃ p ∈ pend.byNode, ∃ s ∈ p.2, ctx.getQuorum s.llmqType s.quorumHash = none) ∨
    ∃ q ∈ queued ctx pend, q.2.pubKeyShare ctx = none

end Definitions

section Proofs
variable {ctx : ShareContext}

lemma collectQuorums_cases (shares : List SigShare) : (collectQuorums ctx shares = .ok () ∧
      ∀ s ∈ shares, (ctx.getQuorum s.llmqType s.quorumHash).isSome) ∨
    (collectQuorums ctx shares = .error (.fault .assertion) ∧
      ∃ s ∈ shares, ctx.getQuorum s.llmqType s.quorumHash = none) := by
  unfold collectQuorums
  induction shares with
  | nil => exact inl ⟨rfl, by simp⟩
  | cons s shares ih =>
    rw [foldlM_cons]
    cases hq : ctx.getQuorum s.llmqType s.quorumHash with
    | none => exact inr ⟨rfl, s, by simp, hq⟩
    | some quorum =>
      rcases ih with ⟨hr, ha⟩ | ⟨hr, s', hs', hn⟩
      · exact inl ⟨hr, by simp [hq]; simpa using ha⟩
      · exact inr ⟨hr, s', mem_cons_of_mem _ hs', hn⟩

def SigShare.pushed (ctx : ShareContext) (nodeId : NodeId) (s : SigShare) :
    NodeId × Message SigShareKey := (nodeId, s.message ctx (s.pubKeyShare ctx))

lemma queuedShares_cons (s : SigShare) (shares : List SigShare) : queuedShares ctx (s :: shares) =
      if s.hasRecoveredSigForId ctx then queuedShares ctx shares
      else if s.sigShare.isSome then s :: queuedShares ctx shares else [] := by
  unfold queuedShares
  rw [filter_cons]
  by_cases hr : s.hasRecoveredSigForId ctx = true
  · simp [hr]
  · by_cases hsig : s.sigShare.isSome = true
    · simp [hr, hsig]
    · simp [hr, hsig]

lemma queueShares_cases (nodeId : NodeId) (shares : List SigShare) :
    ∀ (b : ShareBatch) (pending : List (NodeId × Message SigShareKey)),
      b.batchVerifier.Holds pending → b.batchVerifier.subBatchSize = 0 →
      (∃ b', queueShares ctx nodeId b shares = .ok b' ∧
        (∀ s ∈ queuedShares ctx shares, (s.pubKeyShare ctx).isSome) ∧
        b'.batchVerifier.Holds (pending ++ (queuedShares ctx shares).map (·.pushed ctx nodeId)) ∧
        b'.batchVerifier.subBatchSize = 0 ∧
        b'.batchVerifier.badSources = b.batchVerifier.badSources) ∨
      (∃ f, queueShares ctx nodeId b shares = .error (.fault f)) ∧
        ∃ s ∈ queuedShares ctx shares, s.pubKeyShare ctx = none := by
  induction shares with
  | nil =>
    intro b pending h hz
    exact inl ⟨b, rfl, by simp [queuedShares], by simpa [queuedShares] using h, hz, rfl⟩
  | cons s shares ih =>
    intro b pending h hz
    rw [queuedShares_cons, queueShares]
    by_cases hc : s.hasRecoveredSigForId ctx = true
    · simp only [hc, if_true]
      exact ih b pending h hz
    simp only [hc, if_false, Bool.false_eq_true]
    cases hsig : s.sigShare with
    | none =>
      left
      exact ⟨_, rfl, by simp, by simpa using h, hz, rfl⟩
    | some sig =>
      simp only [Option.isNone_some, Bool.false_eq_true, if_false, Option.isSome_some, if_true]
      cases hq : ctx.getQuorum s.llmqType s.quorumHash with
      | none => exact inr ⟨⟨_, rfl⟩, s, by simp, by simp [SigShare.pubKeyShare, hq]⟩
      | some quorum =>
        have hk : s.pubKeyShare ctx = quorum.getPubKeyShare s.quorumMember := by
          simp [SigShare.pubKeyShare, hq]
        cases hs : quorum.getPubKeyShare s.quorumMember with
        | none =>
          refine inr ⟨⟨.assertion, ?_⟩, s, by simp, by rw [hk, hs]⟩
          simp [hs, Run.ensure]
        | some key =>
          have hv : (s.message ctx (some key)).Valid := ⟨by simp [SigShare.message, hsig], rfl⟩
          have hps : b.batchVerifier.pushMessage ctx.verify nodeId (s.message ctx (some key)) =
              .ok (b.batchVerifier.record nodeId (s.message ctx (some key))) := by
            rw [pushMessage_eq _ _ hv, if_neg (fun hf => hf.1 hz)]
          have hp : (nodeId, s.message ctx (some key)) = s.pushed ctx nodeId := by
            rw [SigShare.pushed, hk, hs]
          simp only [demand_some, ok_bind, hs, Option.isSome_some, ensure_pos trivial, hps]
          have hr' := h.record nodeId hv
          rw [hp] at hr'
          rcases ih { b with batchVerifier := b.batchVerifier.record nodeId (s.message ctx (some key)) }
            _ hr' hz with ⟨b', hr, hy, hh, hz', hb⟩ | ⟨hr, s', hs', hn⟩
          · refine inl ⟨b', hr, ?_, by simpa using hh, hz', hb⟩
            intro s' hs'
            rcases mem_cons.1 hs' with rfl | hs'
            · simp [hk, hs]
            · exact hy s' hs'
          · exact inr ⟨hr, s', mem_cons_of_mem _ hs', hn⟩

lemma foldlM_queueShares_cases (byNode : List (NodeId × List SigShare)) :
    ∀ (b : ShareBatch) (pending : List (NodeId × Message SigShareKey)),
      b.batchVerifier.Holds pending → b.batchVerifier.subBatchSize = 0 →
      (∃ b', byNode.foldlM (fun b p => queueShares ctx p.1 b p.2) b = .ok b' ∧
        (∀ p ∈ byNode, ∀ s ∈ queuedShares ctx p.2, (s.pubKeyShare ctx).isSome) ∧
        b'.batchVerifier.Holds (pending ++ byNode.flatMap fun p =>
          (queuedShares ctx p.2).map (·.pushed ctx p.1)) ∧
        b'.batchVerifier.badSources = b.batchVerifier.badSources) ∨
      (∃ f, byNode.foldlM (fun b p => queueShares ctx p.1 b p.2) b = .error (.fault f)) ∧
        ∃ p ∈ byNode, ∃ s ∈ queuedShares ctx p.2, s.pubKeyShare ctx = none := by
  induction byNode with
  | nil => exact fun b pending h hz => inl ⟨b, rfl, by simp, by simpa using h, rfl⟩
  | cons p byNode ih =>
    intro b pending h hz
    rw [foldlM_cons]
    rcases @queueShares_cases ctx p.1 p.2 b pending h hz with
      ⟨b1, hr1, hk1, hh1, hs1, hb1⟩ | ⟨⟨f, hr1⟩, s, hs, hn⟩
    · rcases ih b1 _ hh1 hs1 with
        ⟨b2, hr2, hk2, hh2, hb2⟩ | ⟨⟨f, hr2⟩, q, hq, hn⟩
      · refine inl ⟨b2, by rw [hr1]; exact hr2, ?_, by simpa using hh2,
          hb2.trans hb1⟩
        intro q hq
        rcases mem_cons.1 hq with rfl | hq
        exacts [hk1, hk2 q hq]
      · exact inr ⟨⟨f, by rw [hr1]; exact hr2⟩, q, mem_cons_of_mem _ hq, hn⟩
    · exact inr ⟨⟨f, by rw [hr1]; rfl⟩, p, by simp, s, hs, hn⟩

lemma processPendingSigSharesFromNode_eq (nodeId : NodeId) (shares : List SigShare)
    (hq : ∀ s ∈ shares, (ctx.getQuorum s.llmqType s.quorumHash).isSome) :
    ∀ r, processPendingSigSharesFromNode ctx nodeId shares r =
      .ok { r with processed := r.processed ++ shares.map fun s => (nodeId, s) } := by
  unfold processPendingSigSharesFromNode
  induction shares with
  | nil => simp
  | cons s shares ih =>
    intro r
    obtain ⟨quorum, hr⟩ := Option.isSome_iff_exists.1 (hq s (by simp))
    rw [foldlM_cons, hr, demand_some, ok_bind, pure_eq, ok_bind,
      ih fun s' hs' => hq s' (by simp [hs'])]
    simp

lemma foldlM_finishNode (v : BatchVerifier NodeId SigShareKey)
    (byNode : List (NodeId × List SigShare))
    (hq : ∀ p ∈ byNode, ∀ s ∈ p.2, (ctx.getQuorum s.llmqType s.quorumHash).isSome) :
    ∀ r, ∃ r', byNode.foldlM (finishNode ctx v) r = .ok r' ∧
      ∀ q, q ∈ r'.processed ↔ q ∈ r.processed ∨
        ∃ p ∈ byNode, p.1 ∉ v.badSources ∧ q.1 = p.1 ∧ q.2 ∈ p.2 := by
  induction byNode with
  | nil => exact fun r => ⟨r, rfl, by simp⟩
  | cons p byNode ih =>
    intro r
    have ih := ih fun p hp => hq p (by simp [hp])
    rw [foldlM_cons]
    by_cases hb : p.1 ∈ v.badSources
    · obtain ⟨r', hr, hm⟩ := ih { r with banned := r.banned ++ [p.1] }
      refine ⟨r', by simpa [finishNode, hb] using hr, fun q => ?_⟩
      simp [hm, hb]
    · obtain ⟨r', hr, hm⟩ := ih { r with processed := r.processed ++ p.2.map fun s => (p.1, s) }
      refine ⟨r', ?_, fun q => ?_⟩
      · rw [finishNode, if_neg hb, processPendingSigSharesFromNode_eq p.1 p.2 (hq p (by simp))]
        exact hr
      · simp only [hm, mem_append, mem_map, or_assoc]
        grind

lemma stored_pushed (pend : PendingShares) (key : SigShareKey) :
    BatchVerifier.stored ((queued ctx pend).map fun q => q.2.pushed ctx q.1) key =
      (firstQueued ctx pend key).map fun s => s.message ctx (s.pubKeyShare ctx) := by
  have hf : ((fun p : NodeId × Message SigShareKey => compare p.2.msgId key == .eq) ∘
      fun q : NodeId × SigShare => q.2.pushed ctx q.1) =
      fun q => decide (q.2.getKey ctx = key) := by
    funext q
    exact Bool.eq_iff_iff.2 (by simp [SigShare.pushed, SigShare.message])
  unfold BatchVerifier.stored firstQueued
  rw [find?_map, hf, Option.map_map, Option.map_map]
  rfl

lemma pushed_queued (pend : PendingShares) :
    (pend.byNode.flatMap fun p => (queuedShares ctx p.2).map (·.pushed ctx p.1)) =
      (queued ctx pend).map fun q => q.2.pushed ctx q.1 := by
  simp [queued, map_flatMap, Function.comp_def]

lemma mem_badSources_iff_caught {pend : PendingShares} {v v' : BatchVerifier NodeId SigShareKey}
    (hfn : v.Found ctx.verify v'
      (BatchVerifier.recorded ((queued ctx pend).map fun q => q.2.pushed ctx q.1)))
    (hnn : ∀ n, n ∉ v.badSources) {p : NodeId × List SigShare} (hp : p ∈ pend.byNode) :
    p.1 ∈ v'.badSources ↔ Caught ctx pend p.2 := by
  rw [hfn.sources]
  constructor
  · rintro (hn | ⟨q, hq, hqp, hb⟩)
    · exact absurd hn (hnn _)
    obtain ⟨q', hq', hqq', ht⟩ := mem_recorded.1 hq
    obtain ⟨⟨n, s⟩, hs, rfl⟩ := mem_map.1 hq'
    obtain ⟨p', hp', hs⟩ := mem_flatMap.1 hs
    obtain ⟨s', hs', he⟩ := mem_map.1 hs
    cases he
    have hpp : p' = p := inj_on_of_nodup_map pend.nodup hp' hp (hqq'.trans hqp)
    obtain ⟨s', hf, hm⟩ := Option.map_eq_some_iff.1 ((stored_pushed pend _).symm.trans ht)
    exact ⟨s, hpp ▸ hs', s', hf, by rw [← hm] at hb; exact hb⟩
  · rintro ⟨s, hs, s', hf, hb⟩
    refine inr ⟨(p.1, s'.message ctx (s'.pubKeyShare ctx)), ?_, rfl, hb⟩
    refine mem_recorded.2 ⟨s.pushed ctx p.1, ?_, rfl, ?_⟩
    · exact mem_map.2 ⟨(p.1, s), mem_flatMap.2 ⟨p, hp, mem_map_of_mem hs⟩, rfl⟩
    · exact (stored_pushed pend (s.getKey ctx)).trans (by rw [hf]; rfl)

lemma processPendingSigShares_eq {pend : PendingShares} (h : ¬ KeyMissing ctx pend) :
    ∃ r, processPendingSigShares ctx pend = .ok r ∧ ∀ q, q ∈ r.processed ↔
      ∃ p ∈ pend.byNode, ¬ Caught ctx pend p.2 ∧ q.1 = p.1 ∧ q.2 ∈ p.2 := by
  have hc : collectQuorums ctx (pend.byNode.flatMap snd) = .ok () ∧
      ∀ p ∈ pend.byNode, ∀ s ∈ p.2, (ctx.getQuorum s.llmqType s.quorumHash).isSome := by
    rcases @collectQuorums_cases ctx (pend.byNode.flatMap snd) with ⟨hr, hq⟩ | ⟨-, s, hs, hq⟩
    · exact ⟨hr, fun p hp s hs => hq s (mem_flatMap.2 ⟨p, hp, hs⟩)⟩
    · obtain ⟨p, hp, hs⟩ := mem_flatMap.1 hs
      exact absurd (inl ⟨p, hp, s, hs, hq⟩) h
  have hi : ({} : ShareBatch).batchVerifier.Holds [] :=
    (@progress_init _ _ _ _ _ _ ctx.verify false true 0).holds
  rcases @foldlM_queueShares_cases ctx pend.byNode {} [] hi rfl with
    ⟨b, hu, -, hh, hb⟩ | ⟨-, p, hp, s, hs, hnn⟩
  · rw [nil_append, pushed_queued] at hh
    obtain ⟨v, hv, hf⟩ := verify_spec ctx.verify hh
    obtain ⟨r, hr, hm⟩ := foldlM_finishNode v pend.byNode hc.2 { banned := b.banned }
    refine ⟨r, ?_, fun q => ?_⟩
    · simp only [processPendingSigShares, hc.1, hu, hv, ok_bind]
      exact hr
    · have hg : ∀ p ∈ pend.byNode, p.1 ∈ v.badSources ↔ Caught ctx pend p.2 := fun p hp =>
        mem_badSources_iff_caught hf (by simp [hb]) hp
      rw [hm]
      constructor
      · rintro (hq | ⟨p, hp, hn, hq⟩)
        · simp at hq
        · exact ⟨p, hp, mt (hg p hp).2 hn, hq⟩
      · rintro ⟨p, hp, hn, hq⟩
        exact inr ⟨p, hp, mt (hg p hp).1 hn, hq⟩
  · refine absurd (inr ⟨(p.1, s), ?_, hnn⟩) h
    exact mem_flatMap.2 ⟨p, hp, mem_map_of_mem hs⟩

lemma processPendingSigShares_of_keyMissing {pend : PendingShares} (h : KeyMissing ctx pend)
    (r : SharesResult) : processPendingSigShares ctx pend ≠ .ok r := by
  rcases @collectQuorums_cases ctx (pend.byNode.flatMap snd) with ⟨hr, hq⟩ | ⟨hr, -⟩
  · have hi : ({} : ShareBatch).batchVerifier.Holds [] :=
      (@progress_init _ _ _ _ _ _ ctx.verify false true 0).holds
    rcases @foldlM_queueShares_cases ctx pend.byNode {} [] hi rfl with
      ⟨-, -, hk, -⟩ | ⟨⟨f, hr'⟩, -⟩
    · rcases h with ⟨p, hp, s, hs, hn⟩ | ⟨q, hq, hn⟩
      · have := hq s (mem_flatMap.2 ⟨p, hp, hs⟩)
        simp [hn] at this
      · obtain ⟨p, hp, hq⟩ := mem_flatMap.1 hq
        obtain ⟨s, hs, rfl⟩ := mem_map.1 hq
        have := hk p hp s hs
        simp [hn] at this
    · simp [processPendingSigShares, hr, hr']
  · simp [processPendingSigShares, hr]

end Proofs

/-- Only acceptable shares are handed to `ProcessSigShare` exactly when a key is missing, or every
peer that sent another share has queued a key whose recorded share fails. -/
theorem onlyAcceptableProcessed_iff (ctx : ShareContext) (pend : PendingShares) :
    OnlyAcceptableProcessed ctx pend ↔ KeyMissing ctx pend ∨
      ∀ p ∈ pend.byNode, (∃ s ∈ p.2, s.acceptable ctx = false) → Caught ctx pend p.2 := by
  by_cases hk : KeyMissing ctx pend
  · refine ⟨fun _ => inl hk, fun _ r hr => ?_⟩
    exact absurd hr (processPendingSigShares_of_keyMissing hk r)
  · obtain ⟨r, hn, hm⟩ := processPendingSigShares_eq hk
    constructor
    · intro hpr
      refine inr fun p hp ⟨s, hs, hb⟩ => ?_
      by_contra hc
      have := hpr r hn (p.1, s) ((hm _).2 ⟨p, hp, hc, rfl, hs⟩)
      simp [hb] at this
    · rintro (h | h)
      · exact absurd h hk
      · intro r' hr' q hq
        rw [hn] at hr'
        cases hr'
        obtain ⟨p, hp, hc, -, hs⟩ := (hm q).1 hq
        by_contra hb
        exact hc (h p hp ⟨q.2, hs, by simpa using hb⟩)

def singleMemberContext : ShareContext where
  verify _ hash sig := hash == sig
  signing :=
    { hashWriter := List.sum
      getActiveQuorumSet := fun _ _ => []
      hasRecoveredSig := fun _ _ _ => false
      hasRecoveredSigForId := fun _ _ => false }
  getQuorum _ _ := some ⟨[11], [true], some fun _ => some 4, by decide⟩

def shareWith (sig : Option Sig) : SigShare := ⟨1, 3, 0, 20, 30, sig⟩

def brokenShares : PendingShares := ⟨[(7, [shareWith none])], by decide⟩

def clashingShares : PendingShares :=
  ⟨[(7, [shareWith (some 54)]), (8, [shareWith (some 99)])], by decide⟩

theorem unverified_shares_processed : ¬ OnlyAcceptableProcessed singleMemberContext brokenShares ∧
    ¬ OnlyAcceptableProcessed singleMemberContext clashingShares := by
  have hb : processPendingSigShares singleMemberContext brokenShares =
      .ok { processed := [(7, shareWith none)], banned := [7] } := by rfl
  have hc : processPendingSigShares singleMemberContext clashingShares =
      .ok { processed := [(7, shareWith (some 54)), (8, shareWith (some 99))] } := by rfl
  refine ⟨fun h => ?_, fun h => ?_⟩
  · exact absurd (h _ hb (7, shareWith none) (by simp)) (by decide)
  · exact absurd (h _ hc (8, shareWith (some 99)) (by simp)) (by decide)

end Trivechain.Llmq
