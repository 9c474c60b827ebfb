import Trivechain.Llmq.Commitment
import Trivechain.Llmq.DkgSession

/-!
# Final commitments of a DKG session

`ReceiveMessage` for premature commitments and `FinalizeCommitments`. Commitments are grouped by
their valid members. A group with enough commitments is finalized, but only those that agree with
the first on the quorum key are signatures of the result, and a member may have sent more than one
of them.
-/

namespace Trivechain.Llmq
open Bls Evo FinalCommitment
open Run (demand)
open Std (ExtTreeMap ExtTreeSet)
open List DkgMember Run

structure QuorumVvec where
  publicKey : Option PubKey
  vvecHash : Uint256
  buildPubKeyShare : Uint256 → Option PubKey

/-- What does not change in a session while commitments arrive: the verified contributions are
complete, and so the vector of a set of valid members can be built or not. -/
structure CommitContext where
  env : Env
  quorumVvec : List Bool → Option QuorumVvec
  /-- the library's aggregation and recovery of signatures -/
  aggregateSigs : List (Option Sig) → List (Option PubKey) → Uint256 → Sig
  recoverSig : List (Option Sig) → List Uint256 → Option Sig

namespace CommitContext
variable (ctx : CommitContext)

/-- `CBLSSignature::AggregateSecure` -/
def aggregateSecure (sigs : List (Option Sig)) (pks : List (Option PubKey)) (hash : Uint256) :
    Option Sig :=
  if sigs.length ≠ pks.length ∨ sigs = [] then none else some (ctx.aggregateSigs sigs pks hash)

/-- `CBLSSignature::Recover` -/
def recover (sigs : List (Option Sig)) (ids : List Uint256) : Option Sig :=
  if sigs = [] ∨ ids = [] ∨ sigs.length ≠ ids.length then none
  else if none ∈ sigs then none
  else ctx.recoverSig sigs ids

end CommitContext

def DkgPrematureCommitment.commitmentHash (qc : DkgPrematureCommitment) (env : Env) : Uint256 :=
  env.buildCommitmentHash qc.llmqType qc.quorumHash qc.validMembers qc.quorumPublicKey
    qc.quorumVvecHash

/-- The checks of `ReceiveMessage` with a verification vector. -/
def QuorumVvec.accepts (vvec : QuorumVvec) (env : Env) (qc : DkgPrematureCommitment) : Bool :=
  if vvec.publicKey ≠ qc.quorumPublicKey then false
  else if qc.quorumVvecHash ≠ vvec.vvecHash then false
  else match vvec.buildPubKeyShare qc.proTxHash with
    | none => false
    | some pubKeyShare => verifyInsecure env.verify qc.quorumSig (some pubKeyShare)
        (qc.commitmentHash env)

structure CommitSession where
  session : DkgSession
  areWeMember : Bool
  prematureCommitments : ExtTreeMap Uint256 DkgPrematureCommitment := ∅
  validCommitments : ExtTreeSet Uint256 := ∅

/-- A round of the loop of `FinalizeCommitments`: what it adds, and the commitments that it did not
skip. -/
structure Round where
  fqc : FinalCommitment
  used : List DkgPrematureCommitment

namespace CommitSession

def keep (s : CommitSession) (hash : Uint256) (qc : DkgPrematureCommitment) : CommitSession :=
  { s with
    session := { s.session with
      members := s.session.members.map fun m =>
        if m.proTxHash = qc.proTxHash then
          { m with prematureCommitments := m.prematureCommitments.insert hash }
        else m }
    prematureCommitments := s.prematureCommitments.insertIfNew hash qc }

def receiveMessage (ctx : CommitContext) (s : CommitSession) (hash : Uint256)
    (qc : DkgPrematureCommitment) : Run CommitSession := do
  let _ ← demand .undefined (s.session.getMember qc.proTxHash)
  let s := s.keep hash qc
  let valid := match ctx.quorumVvec qc.validMembers with
    -- it cannot be verified, but others might be luckier
    | none => true
    | some vvec => vvec.accepts ctx.env qc
  return if valid then { s with validCommitments := s.validCommitments.insert hash } else s

/-- `membersMap[proTxHash]` -/
def signerIndex (s : CommitSession) (proTxHash : Uint256) : Nat :=
  (s.session.members.findIdx? fun m => m.proTxHash = proTxHash).getD 0

/-- `quorumPublicKey` and `quorumVvecHash` are those of the first commitment. -/
def alike (first qc : DkgPrematureCommitment) : Bool :=
  qc.quorumPublicKey = first.quorumPublicKey ∧ qc.quorumVvecHash = first.quorumVvecHash

def addSigner (s : CommitSession) (first : DkgPrematureCommitment)
    (acc : List Bool × List DkgPrematureCommitment) (qc : DkgPrematureCommitment) :
    Run (List Bool × List DkgPrematureCommitment) :=
  if !alike first qc then .ok acc
  else do
    let signerIndex := s.signerIndex qc.proTxHash
    let _ ← demand .undefined s.session.members[signerIndex]?
    let _ ← demand .undefined acc.1[signerIndex]?
    return (acc.1.set signerIndex true, acc.2 ++ [qc])

def signerKey (s : CommitSession) (qc : DkgPrematureCommitment) : Option PubKey :=
  s.session.members[s.signerIndex qc.proTxHash]?.bind pubKeyOperator

def finalizeGroup (ctx : CommitContext) (s : CommitSession) (cvec : List DkgPrematureCommitment) :
    Run (Option Round) := do
  let params := s.session.params
  -- the commitment was signed by a minority
  if cvec.length < params.minSize then return none
  let first ← demand .undefined cvec.head?
  let (signers, used) ← cvec.foldlM (s.addSigner first) (.replicate params.size false, [])
  let commitmentHash := ctx.env.buildCommitmentHash params.type first.quorumHash first.validMembers
    first.quorumPublicKey first.quorumVvecHash
  match ctx.recover (used.map DkgPrematureCommitment.quorumSig)
      (used.map DkgPrematureCommitment.proTxHash) with
  | none => return none
  | some quorumSig =>
    return some {
      fqc := {
        llmqType := params.type
        quorumHash := first.quorumHash
        signers := signers
        validMembers := first.validMembers
        quorumPublicKey := first.quorumPublicKey
        quorumVvecHash := first.quorumVvecHash
        quorumSig := some quorumSig
        membersSig := ctx.aggregateSecure (used.map DkgPrematureCommitment.sig)
          (used.map s.signerKey) commitmentHash }
      used := used }

def addCommitment (s : CommitSession) (m : ExtTreeMap (List Bool) (List DkgPrematureCommitment))
    (p : Uint256 × DkgPrematureCommitment) :
    Run (ExtTreeMap (List Bool) (List DkgPrematureCommitment)) := do
  if p.1 ∉ s.validCommitments then return m
  ensure (s.session.params.minSize ≤ p.2.countValidMembers)
  return m.alter p.2.validMembers fun cvec => some (cvec.getD [] ++ [p.2])

def finalizeCommitments (ctx : CommitContext) (s : CommitSession) : Run (List Round) := do
  if !s.areWeMember then return []
  let commitmentsMap ← s.prematureCommitments.toList.foldlM s.addCommitment ∅
  let rounds ← commitmentsMap.toList.mapM fun p => s.finalizeGroup ctx p.2
  return rounds.reduceOption

/-- A session as `Init` makes it. -/
structure WellFormed (ctx : CommitContext) (s : CommitSession) : Prop where
  nodup : (s.session.members.map proTxHash).Nodup
  length_le : s.session.members.length ≤ s.session.params.size
  known : ctx.env.consensus.findLLMQ s.session.params.type = some s.session.params

/-- Messages are received after they were verified in some state of the session. -/
inductive Reached (ctx : CommitContext) : CommitSession → Prop
  | start {session : DkgSession} {areWeMember : Bool}
      (h : WellFormed ctx ⟨session, areWeMember, ∅, ∅⟩) : Reached ctx ⟨session, areWeMember, ∅, ∅⟩
  | receive {s s1 s' : CommitSession} {hash : Uint256} {qc : DkgPrematureCommitment}
      (hs : Reached ctx s) (hs1 : Reached ctx s1) (hsame : s1.session.params = s.session.params)
      (hmembers : s1.session.members.map proTxHash =
        s.session.members.map proTxHash)
      (hpre : qc.preVerifyMessage s1.session = .accepted)
      (hs' : s.receiveMessage ctx hash qc = .ok s') : Reached ctx s'

structure Passed (s : CommitSession) (qc : DkgPrematureCommitment) : Prop where
  member : qc.proTxHash ∈ s.session.members.map proTxHash
  size : qc.validMembers.length = s.session.params.size
  minSize : s.session.params.minSize ≤ qc.countValidMembers
  sig : qc.sig ≠ none
  quorumSig : qc.quorumSig ≠ none
  unset : ∀ i, s.session.members.length ≤ i → qc.validMembers.getD i false = false

variable {ctx : CommitContext} {s s' s1 : CommitSession} {hash : Uint256}
  {qc : DkgPrematureCommitment}

lemma passed_of_accepted (h : qc.preVerifyMessage s.session = .accepted) : s.Passed qc := by
  unfold DkgPrematureCommitment.preVerifyMessage preVerifyWith at h
  split at h
  · cases h
  cases hm : s.session.getMember qc.proTxHash with
  | none => simp [hm] at h
  | some member =>
    simp only [hm] at h
    split_ifs at h with hs hn hsig hq hr _
    refine ⟨?_, by simpa using hs, by simpa using hn, by simpa using hsig,
      by simpa using hq, fun i hi => ?_⟩
    · have hf := find?_some hm
      exact mem_map.2 ⟨member, mem_of_find?_eq_some hm, by simpa using hf⟩
    · have ha : ((qc.validMembers.drop s.session.members.length).any id) = false := by
        simpa using hr
      rw [any_eq_false] at ha
      by_contra ht
      have hg : qc.validMembers[i]? = some true := by
        rw [getD_eq_getElem?_getD] at ht
        cases hb : qc.validMembers[i]? with
        | none => simp [hb] at ht
        | some b => simpa [hb] using ht
      refine ha true ?_ rfl
      have hd : (qc.validMembers.drop s.session.members.length)[i - s.session.members.length]? =
          some true := by
        rw [getElem?_drop, Nat.add_sub_cancel' hi, hg]
      exact mem_of_getElem? hd

lemma Passed.congr (h : s1.Passed qc) (hp : s1.session.params = s.session.params)
    (hm : s1.session.members.map proTxHash = s.session.members.map proTxHash) : s.Passed qc := by
  have hl : s1.session.members.length = s.session.members.length := by
    simpa using congrArg List.length hm
  exact ⟨hm ▸ h.member, hp ▸ h.size, hp ▸ h.minSize, h.sig, h.quorumSig, hl ▸ h.unset⟩

lemma map_proTxHash_keep (s : CommitSession) (hash : Uint256) (qc : DkgPrematureCommitment) :
    (s.keep hash qc).session.members.map proTxHash =
      s.session.members.map proTxHash := by
  rw [keep, map_map]
  refine map_congr_left fun m _ => ?_
  simp only [Function.comp_apply]
  split_ifs <;> rfl

structure Sound (ctx : CommitContext) (s : CommitSession) : Prop extends WellFormed ctx s where
  passed : ∀ (hash : Uint256) (qc : DkgPrematureCommitment),
    s.prematureCommitments[hash]? = some qc → s.Passed qc

lemma Sound.receiveMessage (h : s.Sound ctx) (hq : s.Passed qc)
    (hs' : s.receiveMessage ctx hash qc = .ok s') : s'.Sound ctx := by
  have hm := map_proTxHash_keep s hash qc
  have hl : (s.keep hash qc).session.members.length = s.session.members.length := by
    simpa using congrArg List.length hm
  have hk : (s.keep hash qc).Sound ctx := by
    refine ⟨⟨hm ▸ h.nodup, hl ▸ h.length_le, h.known⟩, fun hash' qc' hg => ?_⟩
    rw [keep, Maps.getElem?_insertIfNew] at hg
    split_ifs at hg with hn
    · cases hg
      exact hq.congr rfl hm.symm
    · exact (h.passed _ _ hg).congr rfl hm.symm
  obtain ⟨member, -, hs'⟩ := bind_ok.1 hs'
  cases hs'
  split_ifs
  · exact ⟨⟨hk.nodup, hk.length_le, hk.known⟩, fun hash' qc' hg =>
      (hk.passed hash' qc' hg).congr rfl rfl⟩
  · exact hk

lemma Reached.receiveAll {ps : List (Uint256 × DkgPrematureCommitment)} (hs1 : Reached ctx s1)
    (hs : Reached ctx s) (hp : s1.session.params = s.session.params)
    (hm : s1.session.members.map proTxHash = s.session.members.map proTxHash)
    (hr : ∀ p ∈ ps, p.2.preVerifyMessage s1.session = .accepted)
    (hs' : ps.foldlM (fun s p => s.receiveMessage ctx p.1 p.2) s = .ok s') : Reached ctx s' := by
  induction ps generalizing s with
  | nil => cases hs'; exact hs
  | cons p ps ih =>
    obtain ⟨s2, hs2, hs'⟩ := bind_ok.1 hs'
    have hsm : s2.session.params = s.session.params ∧ s2.session.members.map proTxHash =
          s.session.members.map proTxHash := by
      obtain ⟨member, -, hs2⟩ := bind_ok.1 hs2
      cases hs2
      split_ifs <;> exact ⟨rfl, map_proTxHash_keep s p.1 p.2⟩
    exact ih (.receive hs hs1 hp hm (hr p (by simp)) hs2) (hp.trans hsm.1.symm)
      (hm.trans hsm.2.symm) (fun p' hp' => hr p' (by simp [hp'])) hs'

lemma sound_of_reached (hs : Reached ctx s) : s.Sound ctx := by
  induction hs with
  | start h => exact ⟨h, fun _ _ hg => by simp at hg⟩
  | receive _ _ hsm hm hp hs' ih _ =>
    exact ih.receiveMessage ((passed_of_accepted hp).congr hsm hm) hs'

lemma signerIndex_lt (hq : qc.proTxHash ∈ s.session.members.map proTxHash) :
    ∃ m, s.session.members[s.signerIndex qc.proTxHash]? = some m ∧ m.proTxHash = qc.proTxHash := by
  obtain ⟨m, hm, he⟩ := mem_map.1 hq
  cases hf : s.session.members.findIdx? (fun m => decide (m.proTxHash = qc.proTxHash)) with
  | none =>
    rw [findIdx?_eq_none_iff] at hf
    simpa [he] using hf m hm
  | some i =>
    obtain ⟨hl, hp, -⟩ := findIdx?_eq_some_iff_getElem.1 hf
    refine ⟨s.session.members[i], ?_, by simpa using hp⟩
    rw [signerIndex, hf, Option.getD_some, getElem?_eq_getElem hl]

lemma signerIndex_inj {qc' : DkgPrematureCommitment}
    (hq : qc.proTxHash ∈ s.session.members.map proTxHash)
    (hq' : qc'.proTxHash ∈ s.session.members.map proTxHash)
    (h : s.signerIndex qc.proTxHash = s.signerIndex qc'.proTxHash) :
    qc.proTxHash = qc'.proTxHash := by
  obtain ⟨m, hm, he⟩ := signerIndex_lt hq
  obtain ⟨m', hm', he'⟩ := signerIndex_lt hq'
  rw [h, hm'] at hm
  cases hm
  exact he.symm.trans he'

/-- The bits of `signers` after the commitments that are used. -/
def signerBits (s : CommitSession) (bits : List Bool) (used : List DkgPrematureCommitment) :
    List Bool :=
  used.foldl (fun bits qc => bits.set (s.signerIndex qc.proTxHash) true) bits

lemma length_signerBits (bits : List Bool) (used : List DkgPrematureCommitment) :
    (s.signerBits bits used).length = bits.length := by
  induction used generalizing bits with
  | nil => rfl
  | cons qc used ih => exact (ih _).trans (by simp)

lemma getD_signerBits (bits : List Bool) (used : List DkgPrematureCommitment) {i : Nat}
    (hi : i < bits.length) : (s.signerBits bits used).getD i false = true ↔
      bits.getD i false = true ∨ ∃ qc ∈ used, s.signerIndex qc.proTxHash = i := by
  induction used generalizing bits with
  | nil => simp [signerBits]
  | cons qc used ih =>
    have hs := ih (bits.set (s.signerIndex qc.proTxHash) true) (by simpa using hi)
    have ht : (bits.set (s.signerIndex qc.proTxHash) true).getD i false = true ↔
        bits.getD i false = true ∨ s.signerIndex qc.proTxHash = i := by
      by_cases he : s.signerIndex qc.proTxHash = i
      · subst he
        simp [hi]
      · simp [he]
    rw [ht] at hs
    simp only [mem_cons, exists_eq_or_imp]
    rw [← or_assoc]
    exact hs

variable {first : DkgPrematureCommitment} {cvec used : List DkgPrematureCommitment}
  {quorumSig : Sig} {dmns : List DeterministicMN}

lemma foldlM_addSigner (hc : ∀ qc ∈ cvec, qc.proTxHash ∈ s.session.members.map proTxHash)
    (bits : List Bool) (hb : s.session.members.length ≤ bits.length)
    (used : List DkgPrematureCommitment) : cvec.foldlM (s.addSigner first) (bits, used) =
      .ok (s.signerBits bits (cvec.filter (alike first)), used ++ cvec.filter (alike first)) := by
  induction cvec generalizing bits used with
  | nil => simp [signerBits]
  | cons qc cvec ih =>
    have hr : ∀ qc ∈ cvec, qc.proTxHash ∈ s.session.members.map proTxHash :=
      fun qc' hq' => hc qc' (by simp [hq'])
    rw [foldlM_cons, addSigner, filter_cons]
    cases ha : alike first qc with
    | false =>
      simp only [Bool.not_false, if_true, ok_bind, Bool.false_eq_true, if_false]
      exact ih hr bits hb used
    | true =>
      obtain ⟨m, hm, -⟩ := signerIndex_lt (hc qc (by simp))
      have hl : s.signerIndex qc.proTxHash < bits.length :=
        (List.getElem?_eq_some_iff.1 hm).1.trans_le hb
      simp only [Bool.not_true, Bool.false_eq_true, if_false, hm, demand_some, ok_bind,
        getElem?_eq_getElem hl, pure_eq, if_true]
      rw [ih hr _ (by simpa using hb), append_assoc]
      rfl

def round (ctx : CommitContext) (s : CommitSession) (first : DkgPrematureCommitment)
    (used : List DkgPrematureCommitment) (quorumSig : Sig) : Round where
  fqc := {
    llmqType := s.session.params.type
    quorumHash := first.quorumHash
    signers := s.signerBits (.replicate s.session.params.size false) used
    validMembers := first.validMembers
    quorumPublicKey := first.quorumPublicKey
    quorumVvecHash := first.quorumVvecHash
    quorumSig := some quorumSig
    membersSig := ctx.aggregateSecure (used.map DkgPrematureCommitment.sig)
      (used.map s.signerKey) (ctx.env.buildCommitmentHash s.session.params.type first.quorumHash
        first.validMembers first.quorumPublicKey first.quorumVvecHash) }
  used := used

def recovered (ctx : CommitContext) (used : List DkgPrematureCommitment) : Option Sig :=
  ctx.recover (used.map DkgPrematureCommitment.quorumSig)
    (used.map DkgPrematureCommitment.proTxHash)

lemma finalizeGroup_eq (h : s.Sound ctx)
    (hc : ∀ qc ∈ cvec, qc.proTxHash ∈ s.session.members.map proTxHash)
    (hf : cvec.head? = some first) :
    s.finalizeGroup ctx cvec = .ok (if cvec.length < s.session.params.minSize then none else
      (recovered ctx (cvec.filter (alike first))).map
        (s.round ctx first (cvec.filter (alike first)))) := by
  unfold finalizeGroup recovered
  dsimp only
  by_cases hm : cvec.length < s.session.params.minSize
  · rw [if_pos hm, if_pos hm]
    rfl
  rw [if_neg hm, if_neg hm, hf, demand_some, ok_bind,
    foldlM_addSigner hc _ (by simpa using h.length_le), ok_bind, nil_append]
  cases hr : ctx.recover ((cvec.filter (alike first)).map DkgPrematureCommitment.quorumSig)
      ((cvec.filter (alike first)).map DkgPrematureCommitment.proTxHash) with
  | none => rfl
  | some quorumSig => rfl

def commitments (s : CommitSession) : List DkgPrematureCommitment :=
  (s.prematureCommitments.toList.filter fun p => p.1 ∈ s.validCommitments).map Prod.snd

def group (s : CommitSession) (validMembers : List Bool) : List DkgPrematureCommitment :=
  s.commitments.filter fun qc => qc.validMembers = validMembers

lemma passed_of_mem_commitments (h : s.Sound ctx) (hq : qc ∈ s.commitments) : s.Passed qc := by
  obtain ⟨p, hp, rfl⟩ := mem_map.1 hq
  obtain ⟨hp, -⟩ := mem_filter.1 hp
  exact h.passed p.1 p.2 (ExtTreeMap.mem_toList_iff_getElem?_eq_some.1 hp)

lemma foldlM_addCommitment {ps : List (Uint256 × DkgPrematureCommitment)}
    (hp : ∀ p ∈ ps, s.Passed p.2) : ∃ m, ps.foldlM s.addCommitment ∅ = .ok m ∧ ∀ validMembers cvec,
      m[validMembers]? = some cvec ↔ cvec ≠ [] ∧
        cvec = ((ps.filter fun p => p.1 ∈ s.validCommitments).map Prod.snd).filter
          fun qc => qc.validMembers = validMembers := by
  induction ps using List.reverseRecOn with
  | nil => exact ⟨∅, rfl, fun validMembers cvec => by simp⟩
  | append_singleton ps p ih =>
    obtain ⟨m, hm, hs⟩ := ih fun p' hp' => hp p' (by simp [hp'])
    rw [foldlM_append, hm, ok_bind, foldlM_cons, addCommitment]
    by_cases hv : p.1 ∈ s.validCommitments
    · have hn := (hp p (by simp)).minSize
      rw [if_neg (not_not.2 hv), ensure_pos hn]
      refine ⟨_, rfl, fun validMembers cvec => ?_⟩
      rw [filter_append, map_append, filter_append, ExtTreeMap.getElem?_alter]
      by_cases he : p.2.validMembers = validMembers
      · subst he
        have hold : (m[p.2.validMembers]?).getD [] =
            ((ps.filter fun p => p.1 ∈ s.validCommitments).map Prod.snd).filter
              fun qc => qc.validMembers = p.2.validMembers := by
          cases hg : m[p.2.validMembers]? with
          | some cvec' => exact ((hs _ _).1 hg).2
          | none =>
            by_contra hne
            have hsm := (hs p.2.validMembers _).2 ⟨fun h0 => hne h0.symm, rfl⟩
            rw [hg] at hsm
            cases hsm
        rw [if_pos Std.ReflCmp.compare_self, hold]
        simp only [hv, decide_true, filter_cons_of_pos, filter_nil, map_cons,
          map_nil, Option.some.injEq]
        constructor
        · rintro rfl
          exact ⟨by simp, rfl⟩
        · rintro ⟨-, rfl⟩
          rfl
      · have hc : compare p.2.validMembers validMembers ≠ .eq := by simpa using he
        rw [if_neg hc, hs]
        simp [hv, he]
    · rw [if_pos hv]
      refine ⟨m, rfl, fun validMembers cvec => ?_⟩
      rw [hs, filter_append]
      simp [hv]

def roundOf (ctx : CommitContext) (s : CommitSession) (cvec : List DkgPrematureCommitment) :
    Option Round :=
  cvec.head?.bind fun first =>
    if cvec.length < s.session.params.minSize then none
    else (recovered ctx (cvec.filter (alike first))).map
      (s.round ctx first (cvec.filter (alike first)))

lemma roundOf_eq_some {r : Round} :
    s.roundOf ctx cvec = some r ↔ ∃ first quorumSig, cvec.head? = some first ∧
      s.session.params.minSize ≤ cvec.length ∧
      recovered ctx (cvec.filter (alike first)) = some quorumSig ∧
      s.round ctx first (cvec.filter (alike first)) quorumSig = r := by
  simp only [roundOf, Option.bind_eq_some_iff, Option.ite_none_left_eq_some, not_lt,
    Option.map_eq_some_iff]
  constructor
  · rintro ⟨first, hf, hm, quorumSig, hr, hn⟩
    exact ⟨first, quorumSig, hf, hm, hr, hn⟩
  · rintro ⟨first, quorumSig, hf, hm, hr, hn⟩
    exact ⟨first, hf, hm, quorumSig, hr, hn⟩

lemma finalizeCommitments_spec (h : s.Sound ctx) (hme : s.areWeMember) :
    ∃ rounds, s.finalizeCommitments ctx = .ok rounds ∧
      ∀ r, r ∈ rounds ↔ ∃ validMembers, s.roundOf ctx (s.group validMembers) = some r := by
  have hps : ∀ p ∈ s.prematureCommitments.toList, s.Passed p.2 := fun p hp =>
    h.passed p.1 p.2 (ExtTreeMap.mem_toList_iff_getElem?_eq_some.1 hp)
  obtain ⟨m, hm, hs⟩ := foldlM_addCommitment hps
  have hg : ∀ p ∈ m.toList, p.2 ≠ [] ∧ p.2 = s.group p.1 := fun p hp =>
    (hs p.1 p.2).1 (ExtTreeMap.mem_toList_iff_getElem?_eq_some.1 hp)
  have hrn : ∀ p ∈ m.toList, s.finalizeGroup ctx p.2 = .ok (s.roundOf ctx p.2) := by
    intro p hp
    obtain ⟨hn, he⟩ := hg p hp
    have hmm : ∀ qc ∈ p.2, qc.proTxHash ∈ s.session.members.map proTxHash := by
      intro qc hq
      rw [he] at hq
      exact (passed_of_mem_commitments h (mem_filter.1 hq).1).member
    rw [finalizeGroup_eq h hmm (head?_eq_some_head hn), roundOf, head?_eq_some_head hn]
    rfl
  refine ⟨(m.toList.map fun p => s.roundOf ctx p.2).reduceOption, ?_, fun r => ?_⟩
  · rw [finalizeCommitments, hme, if_neg (by simp), hm, ok_bind,
      mapM_eq_ok hrn]
    rfl
  rw [reduceOption_mem_iff, mem_map]
  constructor
  · rintro ⟨p, hp, hr⟩
    exact ⟨p.1, (hg p hp).2 ▸ hr⟩
  · rintro ⟨validMembers, hr⟩
    obtain ⟨first, -, hf, -⟩ := roundOf_eq_some.1 hr
    have hn : s.group validMembers ≠ [] := fun h0 => by simp [h0] at hf
    exact ⟨(validMembers, s.group validMembers),
      ExtTreeMap.mem_toList_iff_getElem?_eq_some.2 ((hs _ _).2 ⟨hn, rfl⟩), hr⟩

/-- A final commitment has enough signers, with one signature of each for what it says, and passes
the other checks of `Verify`. -/
structure Proper (ctx : CommitContext) (s : CommitSession) (dmns : List DeterministicMN)
    (r : Round) : Prop where
  minSize : s.session.params.minSize ≤ r.fqc.countSigners
  nodup : (r.used.map DkgPrematureCommitment.proTxHash).Nodup
  signers : ∀ i, r.fqc.signers.getD i false = true ↔
    ∃ qc ∈ r.used, s.signerIndex qc.proTxHash = i
  same : ∀ qc ∈ r.used, qc.validMembers = r.fqc.validMembers ∧
    qc.quorumPublicKey = r.fqc.quorumPublicKey ∧ qc.quorumVvecHash = r.fqc.quorumVvecHash
  verify : r.fqc.verify ctx.env dmns false = .ok true

/-- In each finalized group, enough members sent one commitment each that agrees with the first,
whose key and vector are there. -/
def Settled (ctx : CommitContext) (s : CommitSession) : Prop :=
  ∀ validMembers first, (s.group validMembers).head? = some first →
    s.session.params.minSize ≤ (s.group validMembers).length →
    (recovered ctx ((s.group validMembers).filter (alike first))).isSome →
    (((s.group validMembers).filter (alike first)).map DkgPrematureCommitment.proTxHash).Nodup ∧
      s.session.params.minSize ≤ ((s.group validMembers).filter (alike first)).length ∧
      first.quorumPublicKey.isSome ∧ first.quorumVvecHash ≠ 0

lemma count_signerBits {bits : List Bool}
    (hn : (used.map fun qc => s.signerIndex qc.proTxHash).Nodup)
    (hl : ∀ qc ∈ used, bits[s.signerIndex qc.proTxHash]? = some false) :
    (s.signerBits bits used).count true = bits.count true + used.length := by
  induction used generalizing bits with
  | nil => rfl
  | cons qc used ih =>
    obtain ⟨ht, hn⟩ := nodup_cons.1 hn
    obtain ⟨hi, hb⟩ := List.getElem?_eq_some_iff.1 (hl qc (by simp))
    have hr : ∀ qc' ∈ used,
        (bits.set (s.signerIndex qc.proTxHash) true)[s.signerIndex qc'.proTxHash]? =
          some false := by
      intro qc' hq'
      have hne : s.signerIndex qc.proTxHash ≠ s.signerIndex qc'.proTxHash := fun he =>
        ht (mem_map.2 ⟨qc', hq', he.symm⟩)
      rw [getElem?_set_ne hne]
      exact hl qc' (by simp [hq'])
    have hs : (bits.set (s.signerIndex qc.proTxHash) true).count true = bits.count true + 1 := by
      rw [count_set hi]
      simp [hb]
    change (s.signerBits (bits.set (s.signerIndex qc.proTxHash) true) used).count true = _
    rw [ih hn hr, hs, length_cons]
    omega

lemma signerIndex_lt_size (hq : s.Passed qc) :
    s.signerIndex qc.proTxHash < s.session.members.length := by
  obtain ⟨m, hm, -⟩ := signerIndex_lt hq.member
  exact (List.getElem?_eq_some_iff.1 hm).1

lemma signerBits_iff (h : s.Sound ctx) (hu : ∀ qc ∈ used, s.Passed qc) (i : Nat) :
    (s.signerBits (.replicate s.session.params.size false) used).getD i false = true ↔
      ∃ qc ∈ used, s.signerIndex qc.proTxHash = i := by
  by_cases hi : i < s.session.params.size
  · rw [getD_signerBits _ used (by simpa using hi)]
    simp [hi]
  · have hl : (s.signerBits (.replicate s.session.params.size false) used).length ≤ i := by
      rw [length_signerBits]
      simpa using hi
    rw [getD_eq_default _ _ hl]
    refine ⟨(fun h0 => by cases h0), ?_⟩
    rintro ⟨qc, hq, rfl⟩
    exact absurd ((signerIndex_lt_size (hu qc hq)).trans_le h.length_le) hi

lemma nodup_signerIndex (hu : ∀ qc ∈ used, s.Passed qc)
    (hn : (used.map DkgPrematureCommitment.proTxHash).Nodup) :
    (used.map fun qc => s.signerIndex qc.proTxHash).Nodup := by
  refine List.Nodup.map_on ?_ (List.Nodup.of_map _ hn)
  intro qc hq qc' hq' he
  exact inj_on_of_nodup_map hn hq hq'
    (signerIndex_inj (hu qc hq).member (hu qc' hq').member he)

lemma countSigners_round (h : s.Sound ctx) (hu : ∀ qc ∈ used, s.Passed qc)
    (hn : (used.map DkgPrematureCommitment.proTxHash).Nodup) :
    (s.round ctx first used quorumSig).fqc.countSigners = used.length := by
  have hc : (s.signerBits (.replicate s.session.params.size false) used).count true =
      (List.replicate s.session.params.size false).count true + used.length := by
    refine count_signerBits (nodup_signerIndex hu hn) fun qc hq => ?_
    have hl := (signerIndex_lt_size (hu qc hq)).trans_le h.length_le
    simp [hl]
  exact hc.trans (by simp [count_replicate])

lemma restUnset_ok {fqc : FinalCommitment} {params : LLMQParams} {n : Nat}
    (hvl : fqc.validMembers.length = params.size) (hsg : fqc.signers.length = params.size)
    (hu : ∀ i, n ≤ i → fqc.validMembers.getD i false = false)
    (hu' : ∀ i, n ≤ i → fqc.signers.getD i false = false) : fqc.restUnset params n = .ok true := by
  have hb : ∀ bits : List Bool, bits.length = params.size →
      (∀ i, n ≤ i → bits.getD i false = false) → ∀ i ∈ List.range' n (params.size - n),
      bitAt bits i = .ok false := by
    intro bits hl hf i hi
    rw [mem_range'_1] at hi
    have ht : i < bits.length := by omega
    have hg := hf i hi.1
    rw [getD_eq_getElem _ _ ht] at hg
    rw [bitAt, getElem?_eq_getElem ht, hg]
    rfl
  have hv := hb _ hvl hu
  have hs := hb _ hsg hu'
  unfold restUnset
  generalize List.range' n (params.size - n) = l at hv hs
  induction l with
  | nil => rfl
  | cons i l ih =>
    rw [foldlM_cons, hv i (by simp), hs i (by simp)]
    exact ih (fun j hj => hv j (by simp [hj])) fun j hj => hs j (by simp [hj])

/-- The checks of `Verify` that the code of a session does not make itself. -/
lemma verify_round (h : s.Sound ctx) (hd : dmns.length = s.session.members.length)
    (hf : first ∈ used) (hu : ∀ qc ∈ used, s.Passed qc) :
    (s.round ctx first used quorumSig).fqc.verify ctx.env dmns false = .ok true ↔
      s.session.params.minSize ≤ (s.round ctx first used quorumSig).fqc.countSigners ∧
        first.quorumPublicKey.isSome ∧ first.quorumVvecHash ≠ 0 := by
  have hp := hu first hf
  have hl : (s.round ctx first used quorumSig).fqc.signers.length =
      s.session.params.size := by
    simp [round, length_signerBits]
  have hz : (s.round ctx first used quorumSig).fqc.verifySizes s.session.params = true := by
    simp only [verifySizes, hl, Bool.and_eq_true, beq_iff_eq, true_and]
    exact hp.size
  have hvl : ¬ (s.round ctx first used quorumSig).fqc.countValidMembers <
      s.session.params.minSize := not_lt.2 hp.minSize
  have hm : (s.round ctx first used quorumSig).fqc.membersSig.isNone = false := by
    simp [round, CommitContext.aggregateSecure, ne_nil_of_mem hf]
  have hr : (s.round ctx first used quorumSig).fqc.restUnset s.session.params dmns.length =
      .ok true := by
    refine restUnset_ok hp.size hl (hd ▸ hp.unset) fun i hi => ?_
    rw [← Bool.not_eq_true]
    intro ht
    obtain ⟨qc, hc, rfl⟩ := (signerBits_iff h hu i).1 ht
    have hlt := signerIndex_lt_size (hu qc hc)
    omega
  have hk : ctx.env.consensus.findLLMQ (s.round ctx first used quorumSig).fqc.llmqType =
      some s.session.params := h.known
  have hv : ¬ ((s.round ctx first used quorumSig).fqc.nVersion = 0 ∨
      FinalCommitment.CURRENT_VERSION < (s.round ctx first used quorumSig).fqc.nVersion) := by
    simp [round, FinalCommitment.CURRENT_VERSION]
  have hy : (s.round ctx first used quorumSig).fqc.quorumPublicKey = first.quorumPublicKey := rfl
  have hvv : (s.round ctx first used quorumSig).fqc.quorumVvecHash = first.quorumVvecHash := rfl
  have hq : (s.round ctx first used quorumSig).fqc.quorumSig.isNone = false := rfl
  unfold verify
  rw [if_neg hv]
  simp only [hk, hz, hvl, hm, hq, hr, hy, hvv]
  by_cases hs : s.session.params.minSize ≤ (s.round ctx first used quorumSig).fqc.countSigners
  · cases hb : first.quorumPublicKey with
    | none => simp [hs]
    | some key => by_cases h0 : first.quorumVvecHash = 0 <;> simp [hs, h0]
  · simp [hs, not_le.1 hs]

lemma proper_round_iff (h : s.Sound ctx) (hd : dmns.length = s.session.members.length)
    (hf : first ∈ used) (hu : ∀ qc ∈ used, s.Passed qc)
    (hs : ∀ qc ∈ used, qc.validMembers = first.validMembers ∧ alike first qc = true) :
    Proper ctx s dmns (s.round ctx first used quorumSig) ↔
      (used.map DkgPrematureCommitment.proTxHash).Nodup ∧
        s.session.params.minSize ≤ used.length ∧ first.quorumPublicKey.isSome ∧
        first.quorumVvecHash ≠ 0 := by
  constructor
  · intro hp
    have hn : (used.map DkgPrematureCommitment.proTxHash).Nodup := hp.nodup
    obtain ⟨hm, hk, hv⟩ := (verify_round h hd hf hu).1 hp.verify
    rw [countSigners_round h hu hn] at hm
    exact ⟨hn, hm, hk, hv⟩
  · rintro ⟨hn, hm, hk, hv⟩
    have hc : s.session.params.minSize ≤ (s.round ctx first used quorumSig).fqc.countSigners := by
      rw [countSigners_round h hu hn]
      exact hm
    refine ⟨hc, hn, signerBits_iff h hu, fun qc hq => ?_, (verify_round h hd hf hu).2 ⟨hc, hk, hv⟩⟩
    have ha : qc.quorumPublicKey = first.quorumPublicKey ∧
        qc.quorumVvecHash = first.quorumVvecHash := by simpa [alike] using (hs qc hq).2
    exact ⟨(hs qc hq).1, ha⟩

/-- **Which final commitments are fit to be mined.** `FinalizeCommitments` returns in every state,
and what it returns is proper exactly when all groups are settled. -/
theorem proper_iff (hs : Reached ctx s) (hdmns : dmns.length = s.session.members.length) :
    ∃ rounds, s.finalizeCommitments ctx = .ok rounds ∧
      ((∀ r ∈ rounds, Proper ctx s dmns r) ↔ (s.areWeMember = true → Settled ctx s)) := by
  have h := sound_of_reached hs
  cases hm : s.areWeMember with
  | false => exact ⟨[], by simp [finalizeCommitments, hm], by simp⟩
  | true =>
    obtain ⟨rounds, ho, hsp⟩ := finalizeCommitments_spec h hm
    refine ⟨rounds, ho, ?_⟩
    -- the commitments of a group that agree with its first one
    have hrn : ∀ validMembers first quorumSig, (s.group validMembers).head? = some first →
        (Proper ctx s dmns (s.round ctx first ((s.group validMembers).filter (alike first))
          quorumSig) ↔ _) := fun validMembers first quorumSig hf => by
      have hmm := List.mem_of_head? hf
      refine proper_round_iff h hdmns (List.mem_filter.2 ⟨hmm, by simp [alike]⟩)
        (fun qc hc => ?_) fun qc hc => ?_
      · exact passed_of_mem_commitments h (List.mem_filter.1 (List.mem_filter.1 hc).1).1
      · obtain ⟨hc, ha⟩ := List.mem_filter.1 hc
        have hl := (List.mem_filter.1 hc).2
        have hv := (List.mem_filter.1 hmm).2
        simp only [decide_eq_true_eq] at hl hv
        exact ⟨hl.trans hv.symm, ha⟩
    constructor
    · intro hp _ validMembers first hf hn hrc
      obtain ⟨quorumSig, hq⟩ := Option.isSome_iff_exists.1 hrc
      refine (hrn validMembers first quorumSig hf).1 (hp _ ((hsp _).2
        ⟨validMembers, roundOf_eq_some.2 ⟨first, quorumSig, hf, hn, hq, rfl⟩⟩))
    · intro ht r hr
      obtain ⟨validMembers, hr⟩ := (hsp r).1 hr
      obtain ⟨first, quorumSig, hf, hn, hq, rfl⟩ := roundOf_eq_some.1 hr
      exact (hrn validMembers first quorumSig hf).2
        (ht rfl validMembers first hf hn (by rw [hq]; rfl))

end CommitSession
end Trivechain.Llmq

namespace Trivechain.Llmq.OtherKey
open Bls Evo

/-! ### A member that commits to another key

The verification vector of the quorum could not be built, so all commitments are kept. -/

def ctx : CommitContext where
  env := .permissive .main ConsensusParams.main
  quorumVvec _ := none
  aggregateSigs sigs _ _ := sigs.length
  recoverSig sigs ids := if ids.Nodup ∧ 3 ≤ ids.length then some sigs.length else none

def start : CommitSession where
  session := {
    params := llmq5_60
    quorumHash := 0
    members := [1, 2, 3, 4, 5].map fun p => { proTxHash := p, pubKeyOperator := some p }
    verifyVerificationVector := fun _ => true }
  areWeMember := true

def commitment (sender : Uint256) (key : PubKey) : DkgPrematureCommitment where
  llmqType := LLMQ_5_60
  quorumHash := 0
  proTxHash := sender
  validMembers := [true, true, true, true, true]
  quorumPublicKey := some key
  quorumVvecHash := 1
  quorumSig := some sender
  sig := some sender

def messages (lastKey : PubKey) : List (Uint256 × DkgPrematureCommitment) :=
  [(1, commitment 1 7), (2, commitment 2 7), (3, commitment 3 7), (4, commitment 4 lastKey)]

def after (lastKey : PubKey) : Run CommitSession :=
  (messages lastKey).foldlM (fun s p => s.receiveMessage ctx p.1 p.2) start

lemma reached_start : CommitSession.Reached ctx start := .start ⟨by decide, by decide, by decide⟩

lemma reached_after {lastKey : PubKey} {s : CommitSession}
    (hp : ∀ p ∈ messages lastKey, p.2.preVerifyMessage start.session = .accepted)
    (hs : after lastKey = .ok s) : CommitSession.Reached ctx s :=
  .receiveAll reached_start reached_start rfl rfl hp hs

def masternode (proTxHash : Uint256) : DeterministicMN where
  proTxHash := proTxHash
  internalId := proTxHash
  collateralOutpoint := ⟨proTxHash, 0⟩
  nOperatorReward := 0
  pdmnState := { nRegisteredHeight := 1, pubKeyOperator := some proTxHash }

def dmns : List DeterministicMN := [1, 2, 3, 4, 5].map masternode

/-- Four commitments are a group that is large enough, but only three of them are used. -/
theorem too_few_signers : ∃ s r, CommitSession.Reached ctx s ∧
    dmns.length = s.session.members.length ∧ s.session.params.minSize = 4 ∧
    s.finalizeCommitments ctx = .ok [r] ∧ r.fqc.countSigners = 3 ∧
    r.fqc.verify ctx.env dmns false = .ok false ∧ ¬ CommitSession.Proper ctx s dmns r := by
  obtain ⟨s, hs, hf⟩ : ∃ s, after 8 = .ok s ∧
      (s.finalizeCommitments ctx).toOption.map (List.map fun r =>
        (r.fqc.countSigners, (r.fqc.verify ctx.env dmns false).toOption)) =
      some [(3, some false)] :=
    Run.exists_of_map_toOption (by decide +kernel)
  obtain ⟨s', hs', hz⟩ : ∃ s, after 8 = .ok s ∧
      (s.session.members.length, s.session.params.minSize) = (5, 4) :=
    Run.exists_of_map_toOption (by decide +kernel)
  obtain rfl := Except.ok.inj (hs.symm.trans hs')
  obtain ⟨hl, hn⟩ := Prod.mk.inj hz
  obtain ⟨rounds, hrn, hm⟩ := Run.exists_of_map_toOption hf
  obtain ⟨r, rfl, hr⟩ := List.map_eq_singleton_iff.1 hm
  obtain ⟨hc, hvr⟩ := Prod.mk.inj hr
  refine ⟨s, r, reached_after (by decide) hs, hl.symm, hn, hrn, hc, ?_, ?_⟩
  · cases hv : r.fqc.verify ctx.env dmns false with
    | error e => simp [hv, Except.toOption] at hvr
    | ok b => simpa [hv, Except.toOption] using hvr
  · intro hp
    have := hp.minSize
    omega

theorem proper_of_one_key : ∃ s rounds, CommitSession.Reached ctx s ∧
    s.finalizeCommitments ctx = .ok rounds ∧ rounds.length = 1 ∧
    ∀ r ∈ rounds, CommitSession.Proper ctx s dmns r := by
  obtain ⟨s, hs, hc⟩ : ∃ s, after 7 = .ok s ∧ s.commitments = (messages 7).map Prod.snd :=
    Run.exists_of_map_toOption (by decide +kernel)
  obtain ⟨s', hs', hz⟩ : ∃ s, after 7 = .ok s ∧
      (s.session.members.length, s.session.params.minSize) = (5, 4) :=
    Run.exists_of_map_toOption (by decide +kernel)
  obtain ⟨s'', hs'', ho⟩ : ∃ s, after 7 = .ok s ∧
      (s.finalizeCommitments ctx).toOption.map List.length = some 1 :=
    Run.exists_of_map_toOption (by decide +kernel)
  obtain rfl := Except.ok.inj (hs.symm.trans hs')
  obtain rfl := Except.ok.inj (hs.symm.trans hs'')
  obtain ⟨hl, hm⟩ := Prod.mk.inj hz
  have hr := reached_after (by decide) hs
  obtain ⟨rounds, hn, hi⟩ := CommitSession.proper_iff hr
    (show dmns.length = s.session.members.length by rw [hl]; rfl)
  obtain ⟨rounds', hr', hcn⟩ := Run.exists_of_map_toOption ho
  obtain rfl := Except.ok.inj (hn.symm.trans hr')
  refine ⟨s, rounds, hr, hn, hcn, hi.2 fun _ validMembers first hf _ _ => ?_⟩
  have hg : s.group validMembers =
      ((messages 7).map Prod.snd).filter fun qc => qc.validMembers = validMembers := by
    rw [CommitSession.group, hc]
  by_cases hv : [true, true, true, true, true] = validMembers
  · subst hv
    rw [hg] at hf ⊢
    obtain rfl : commitment 1 7 = first := Option.some.inj hf
    rw [hm]
    decide
  · have he : s.group validMembers = [] := by
      rw [hg]
      simp [messages, commitment, hv]
    rw [he] at hf
    cases hf

end Trivechain.Llmq.OtherKey
