import Trivechain.Evo.BuildList
import Trivechain.Evo.TableHash
import Trivechain.Llmq.BlockProcessor

/-!
# Commitments that reach the masternode list

`BuildNewListFromBlock` hands every commitment that is not null to `HandleQuorumCommitment`, which
looks its parameters up and reads a bit for each member of the quorum. It relies on
`CheckLLMQCommitment` when the previous block is above height 465000, and on `ProcessCommitment`
when the block itself is. So all commitments can be handled at a height exactly when it is above
465000.
-/

namespace Trivechain.Evo
open Bls Llmq List Run
open Llmq.QuorumBlockProcessor
open Work (Triple)

section CommitmentSafety
variable [PropertyHash] [ChainHash] (env : Env)

/-- The commitment decodes, its parameters are known, and there is a bit for each member of its
quorum. -/
def Handled (view : ChainView) (pindexPrev : BlockIndex)
    (payload : Option FinalCommitmentTxPayload) : Prop :=
  ∃ qc, payload = some qc ∧ (qc.commitment.isNull = false →
    (env.consensus.findLLMQ qc.commitment.llmqType).isSome ∧
    ∀ quorumIndex members, quorumIndexOf env pindexPrev qc = .ok quorumIndex →
      getAllQuorumMembers env view.ask qc.commitment.llmqType quorumIndex = .ok members →
      members.length ≤ qc.commitment.validMembers.length)

/-- All commitments that `BuildNewListFromBlock` processes can be handled. -/
def CommitmentsHandled (view : ChainView) (pindexPrev : BlockIndex) (block : Block) : Prop :=
  ∀ tx ∈ block.txs, tx.nVersion = 3 → ∀ payload, tx.payload = .quorumCommitment payload →
    Handled env view pindexPrev payload

/-- In every state of the processor, the blocks of a height that pass the checks only have
commitments that can be handled. -/
def AllHandledAt (nHeight : Nat) : Prop :=
  ∀ (view : ChainView) (chainActive pindexPrev : BlockIndex) (block : Block)
    (s s' : QuorumBlockProcessor), pindexPrev.nHeight + 1 = nHeight →
    ChecksPass env view pindexPrev block →
    Work.exec (processBlock env view chainActive pindexPrev block) s = (.ok (), s') →
    CommitmentsHandled env view pindexPrev block

variable {env} {view : ChainView} {chainActive pindexPrev : BlockIndex} {nHeight : Nat}

section

omit [PropertyHash]

lemma processCommitment_verified {blockHash : Uint256} {qc : FinalCommitment}
    (hh : commitmentCheckHeight < nHeight) :
    Triple (fun _ => True) (processCommitment env view chainActive nHeight blockHash qc)
      (fun _ _ => qc.isNull = false → ∃ members, qc.verify env members true = .ok true)
      fun _ => True := by
  refine .ite (fun he => absurd hh (by omega)) fun _ => ?_
  refine .bind_lift (fun params _ => ?_) fun _ _ => trivial
  refine .bind_lift (fun quorumHash _ => ?_) fun _ _ => trivial
  refine .bind_lift (fun _ _ => ?_) fun _ _ => trivial
  refine .bind_lift (fun _ _ => ?_) fun _ _ => trivial
  refine .ite (fun hn => .lift (fun _ _ _ _ h => by simp [hn] at h) fun _ _ => trivial)
    fun _ => ?_
  unfold processNonNull
  refine .bind (Q := fun _ _ => True) (fun _ _ => by split <;> trivial) fun ha => ?_
  refine .bind_lift (fun _ _ => ?_) fun _ _ => trivial
  refine .bind_lift (fun phase _ => ?_) fun _ _ => trivial
  refine .bind_lift (fun _ _ => ?_) fun _ _ => trivial
  refine .bind_lift (fun quorumIndex _ => ?_) fun _ _ => trivial
  refine .bind_lift (fun members _ => ?_) fun _ _ => trivial
  refine .bind_lift (fun valid hv => ?_) fun _ _ => trivial
  refine .bind_lift (fun _ hl => ?_) fun _ _ => trivial
  obtain rfl : valid = true := by simpa using denyIf_ok.1 hl
  exact .modify fun _ _ _ => ⟨members, hv⟩

lemma processBlock_verified {block : Block}
    (ha : env.consensus.DIP0003Height ≤ pindexPrev.nHeight + 1)
    (hh : commitmentCheckHeight < pindexPrev.nHeight + 1) :
    Triple (fun _ => True) (processBlock env view chainActive pindexPrev block)
      (fun _ _ => ∃ qcs, getCommitmentsFromBlock env block (pindexPrev.nHeight + 1) = .ok qcs ∧
        ∀ qc ∈ Maps.values qcs, qc.isNull = false →
          ∃ members, qc.verify env members true = .ok true) fun _ => True := by
  refine .ite (fun hl => absurd ha (by omega)) fun _ => ?_
  refine .bind_lift (fun qcs hq => ?_) fun _ _ => trivial
  refine .bind (Q := fun _ _ => True) (fun _ _ => by split <;> trivial) fun _ => ?_
  refine (Triple.forM (fun pre _ => ∀ qc ∈ pre, qc.isNull = false →
    ∃ members, qc.verify env members true = .ok true) fun pre qc post _ => ?_).conseq
    (fun _ _ => by simp) (fun _ _ h => ⟨qcs, hq, h⟩) fun _ h => h
  refine .of_fact fun hp => (processCommitment_verified hh).conseq (fun _ h => h) ?_ fun _ h => h
  intro _ _ hc qc' hq'
  rcases mem_append.1 hq' with hm | hm
  · exact hp qc' hm
  · obtain rfl := mem_singleton.1 hm
    exact hc

lemma handled_of_verify {qc : FinalCommitmentTxPayload} (h : qc.commitment.isNull = false →
      ∃ members, qc.commitment.verify env members true = .ok true) :
    Handled env view pindexPrev (some qc) := by
  refine ⟨qc, rfl, fun hn => ?_⟩
  obtain ⟨members, hv⟩ := h hn
  obtain ⟨params, hp, hl⟩ := qc.commitment.of_verify env hv
  refine ⟨by simp [hp], fun quorumIndex members' _ hm => ?_⟩
  obtain ⟨params', hp', hm⟩ := bind_ok.1 hm
  obtain rfl : params' = params := by
    simpa [ConsensusParams.getLLMQ, hp, eq_comm] using hp'
  obtain ⟨l, -, hm⟩ := bind_ok.1 hm
  cases hm
  rw [hl]
  exact l.length_calculateQuorum_le env _ _

lemma handled_of_processBlock {block : Block} {s s' : QuorumBlockProcessor}
    (ha : env.consensus.DIP0003Height ≤ pindexPrev.nHeight + 1)
    (hh : commitmentCheckHeight < pindexPrev.nHeight + 1)
    (h : Work.exec (processBlock env view chainActive pindexPrev block) s = (.ok (), s')) :
    CommitmentsHandled env view pindexPrev block := by
  obtain ⟨qcs, hq, hv⟩ := (processBlock_verified ha hh).of_ok trivial h
  intro tx ht _ payload hp
  obtain ⟨qc, rfl, hc⟩ := getCommitmentsFromBlock_ok hq tx (mem_of_mem_drop ht) payload hp
  exact handled_of_verify (hv qc.commitment (Maps.mem_values.2 ⟨_, hc⟩))

end

def untypedCommitment : FinalCommitmentTxPayload where
  commitment := { quorumPublicKey := some 1 }

def untypedBlock : Block where
  vtx := [{ nVersion := 1, payload := .normal, vin := [.null], vout := [] },
    { nVersion := 3, payload := .quorumCommitment (some untypedCommitment), vin := [], vout := [] }]

omit [PropertyHash] in
lemma not_handled_untyped : ¬ CommitmentsHandled env view pindexPrev untypedBlock := by
  intro h
  obtain ⟨qc, hq, hh⟩ := h _ (mem_singleton_self _) rfl _ rfl
  cases hq
  have hn : env.consensus.findLLMQ untypedCommitment.commitment.llmqType = none :=
    env.consensus.findLLMQ_none
  simpa [hn] using (hh rfl).1

lemma checksPass_untyped (ha : env.consensus.DIP0003Height ≤ pindexPrev.nHeight + 1)
    (hh : pindexPrev.nHeight + 1 ≤ commitmentCheckHeight) :
    ChecksPass env view pindexPrev untypedBlock := by
  intro tx ht
  rcases mem_cons.1 ht with rfl | ht
  · rfl
  · obtain rfl := mem_singleton.1 ht
    have hn : ¬ commitmentCheckHeight < pindexPrev.nHeight := by omega
    simp [checkSpecialTx, checkByType, checkLLMQCommitment, demand, hn, not_lt.2 ha]

omit [PropertyHash] [ChainHash] in
lemma hasMinedCommitment_returns {llmqType : LLMQType} {quorumHash : Uint256} :
    Triple (fun _ => True) (hasMinedCommitment llmqType quorumHash) (fun _ _ => True)
      fun _ => False := by
  intro s _
  unfold hasMinedCommitment
  rw [Work.exec_bind_ok (Work.exec_get s)]
  cases s.hasMinedCommitmentCache[(llmqType, quorumHash)]? <;> trivial

section

omit [PropertyHash]

lemma checkRequired_passes {qcs : Std.ExtTreeMap LLMQType FinalCommitment} {params : LLMQParams}
    (hh : nHeight ≤ commitmentCheckHeight) (hp : params ∈ env.consensus.llmqs) :
    Triple (fun _ => True) (checkRequired env chainActive nHeight qcs params)
      (fun _ _ => True) fun _ => False := by
  obtain ⟨params', hk⟩ : ∃ params', env.consensus.getLLMQ params.type = .ok params' := by
    have hs : (env.consensus.findLLMQ params.type).isSome := find?_isSome.2 ⟨params, hp, by simp⟩
    obtain ⟨params', hf⟩ := Option.isSome_iff_exists.1 hs
    exact ⟨params', demand_ok.2 hf⟩
  have hr : Triple (fun _ => True)
      (isCommitmentRequired env chainActive params.type nHeight) (fun _ _ => True)
      fun _ => False := by
    refine .bind_lift_ok (by simp only [getQuorumBlockHash, hk, ok_bind]; rfl) ?_
    refine .ite (fun _ => .pure fun _ _ => trivial) fun _ => ?_
    refine .bind_lift_ok (by simp only [isMiningPhase, hk, ok_bind]; rfl) ?_
    exact .bind hasMinedCommitment_returns fun _ => .pure fun _ _ => trivial
  -- both refusals need a height above the one from which commitments are checked
  have hn : ¬ commitmentCheckHeight < nHeight := by omega
  refine .bind hr fun required => ?_
  refine .bind_lift_ok (a := ()) (denyIf_ok.2 (by simp [hn])) ?_
  intro s _
  rw [Work.exec_lift, denyIf_ok (u := ()) |>.2 (by simp [hn])]
  trivial

variable (env view chainActive pindexPrev) in
lemma processBlock_untyped (ha : env.consensus.DIP0003Height ≤ pindexPrev.nHeight + 1)
    (hh : pindexPrev.nHeight + 1 ≤ commitmentCheckHeight) (s : QuorumBlockProcessor) :
    ∃ s', Work.exec (processBlock env view chainActive pindexPrev untypedBlock) s =
    (.ok (), s') := by
  have hp : Triple (fun _ => True)
      (processBlock env view chainActive pindexPrev untypedBlock) (fun _ _ => True)
      fun _ => False := by
    refine .ite (fun _ => .pure fun _ _ => trivial) fun _ => ?_
    refine .bind_lift_ok (a := Std.ExtTreeMap.insert ∅ LLMQ_NONE untypedCommitment.commitment) ?_ ?_
    · have hf : untypedBlock.vtx.foldlM addCommitment ∅ =
          .ok (Std.ExtTreeMap.insert ∅ LLMQ_NONE untypedCommitment.commitment) := by
        simp [untypedBlock, addCommitment, orDeny, denyIf, foldlM_cons]
        rfl
      rw [getCommitmentsFromBlock, hf, ok_bind, denyIf_ok (u := ()) |>.2 (by simp [not_lt.2 ha])]
      rfl
    · refine .bind (Q := fun _ _ => True) ?_ fun _ => ?_
      · exact .forM (fun _ _ => True) fun pre params post hq =>
          checkRequired_passes hh (hq ▸ by simp)
      · refine .forM (fun _ _ => True) fun _ _ _ _ => ?_
        exact .ite (fun _ => .pure fun _ _ => trivial) fun hn => absurd hh hn
  obtain ⟨_, s', he, -⟩ := hp.exists_ok (s := s) trivial
  exact ⟨s', he⟩

end

lemma not_allHandledAt (hs : 0 < nHeight) (ha : env.consensus.DIP0003Height ≤ nHeight)
    (hh : nHeight ≤ commitmentCheckHeight) : ¬ AllHandledAt env nHeight := by
  intro h
  let pindexPrev : BlockIndex := ⟨untypedBlock, replicate (nHeight - 1) untypedBlock⟩
  have hr : pindexPrev.nHeight + 1 = nHeight := by
    have : pindexPrev.nHeight = nHeight - 1 := length_replicate
    omega
  let view : ChainView := ⟨fun _ => none, fun _ => none, fun _ => {}, fun _ => false⟩
  obtain ⟨s', hp⟩ := processBlock_untyped env view pindexPrev pindexPrev (by omega)
    (by omega) {}
  exact not_handled_untyped (h view pindexPrev pindexPrev untypedBlock {} s' hr
    (checksPass_untyped (by omega) (by omega)) hp)

/-- From the height on at which blocks register masternodes: all commitments can be handled exactly
above 465000. -/
theorem allHandledAt_iff (hpos : 0 < nHeight) (hactive : env.consensus.DIP0003Height ≤ nHeight) :
    AllHandledAt env nHeight ↔ commitmentCheckHeight < nHeight := by
  constructor
  · intro h
    by_contra hn
    exact not_allHandledAt hpos hactive (not_lt.1 hn) h
  · rintro hh view chainActive pindexPrev block s s' rfl - hp
    exact handled_of_processBlock hactive hh hp

end CommitmentSafety

namespace MainNetwork

local instance : PropertyHash := encodingHash
local instance : ChainHash := tableHash [] []

def env : Env := .permissive .main .main

theorem handled_above : AllHandledAt env 465001 :=
  (allHandledAt_iff (by decide) (by decide)).2 (by decide)

/-- The first block in which a masternode can be registered. -/
theorem untyped_commitment_unhandled : ¬ AllHandledAt env 445500 :=
  not_allHandledAt (by decide) (by decide) (by decide)

end MainNetwork
end Trivechain.Evo
