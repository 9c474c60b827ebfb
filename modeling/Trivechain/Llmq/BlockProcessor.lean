import Trivechain.Evo.CheckSpecialTx
import Trivechain.Lib.Work

/-!
# The quorum block processor

`CQuorumBlockProcessor` takes the commitments out of connected blocks, checks that each DKG session
gets those it needs, and stores the ones that are not null in the evo database: under their quorum,
and under the height at which they were mined. A cache remembers for which quorums a commitment has
been mined. Commitments of disconnected blocks can be mined again.

All checks are made above height 465000 only.
-/

namespace Trivechain.Llmq
open Bls Evo ConsensusParams
open Run (denyIf orDeny demand dos)
open Std (ExtTreeMap)
open Run Maps FinalCommitment

/-- `SerializeHash` of a commitment. -/
class CommitmentHash where
  serializeHash : FinalCommitment → Uint256

/-- `DB_MINED_COMMITMENT`, with the block that mined the commitment, and
`DB_MINED_COMMITMENT_BY_INVERSED_HEIGHT`, the height of the quorum under the height of mining. -/
structure MinedTables where
  mined : ExtTreeMap (LLMQType × Uint256) (FinalCommitment × Uint256) := ∅
  byHeight : ExtTreeMap (LLMQType × Nat) Nat := ∅

structure QuorumBlockProcessor where
  evoDb : MinedTables := {}
  minableCommitmentsByQuorum : ExtTreeMap (LLMQType × Uint256) Uint256 := ∅
  minableCommitments : ExtTreeMap Uint256 FinalCommitment := ∅
  hasMinedCommitmentCache : ExtTreeMap (LLMQType × Uint256) Bool := ∅

abbrev Processing := Work QuorumBlockProcessor

def MinedTables.store (t : MinedTables) (nHeight : Nat) (blockHash : Uint256)
    (qc : FinalCommitment) (quorumHeight : Nat) : MinedTables where
  mined := t.mined.insert (qc.llmqType, qc.quorumHash) (qc, blockHash)
  byHeight := t.byHeight.insert (qc.llmqType, nHeight) quorumHeight

def MinedTables.remove (t : MinedTables) (nHeight : Nat) (qc : FinalCommitment) : MinedTables where
  mined := t.mined.erase (qc.llmqType, qc.quorumHash)
  byHeight := t.byHeight.erase (qc.llmqType, nHeight)

variable (env : Env)

def addCommitment (ret : ExtTreeMap LLMQType FinalCommitment) (tx : Transaction) :
    Run (ExtTreeMap LLMQType FinalCommitment) :=
  match tx.payload with
  | .quorumCommitment payload => do
    let qc ← orDeny payload 100 .invalid "bad-tx-payload"
    denyIf (ret.contains qc.commitment.llmqType = true) 100 .invalid "bad-qc-dup"
    return ret.insert qc.commitment.llmqType qc.commitment
  | _ => .ok ret

def getCommitmentsFromBlock (block : Block) (nHeight : Nat) :
    Run (ExtTreeMap LLMQType FinalCommitment) := do
  let ret ← block.vtx.foldlM addCommitment ∅
  denyIf (nHeight < env.consensus.DIP0003Height ∧ !ret.isEmpty) 100 .invalid "bad-qc-premature"
  return ret

def isMiningPhase (llmqType : LLMQType) (nHeight : Nat) : Run Bool := do
  let params ← env.consensus.getLLMQ llmqType
  let phaseIndex := nHeight % params.dkgInterval
  return params.dkgMiningWindowStart ≤ phaseIndex && phaseIndex ≤ params.dkgMiningWindowEnd

def LLMQParams.quorumStartHeight (params : LLMQParams) (nHeight : Nat) : Nat :=
  nHeight - nHeight % params.dkgInterval

namespace QuorumBlockProcessor

def hasMinedCommitment (llmqType : LLMQType) (quorumHash : Uint256) : Processing Bool := do
  let s ← get
  match s.hasMinedCommitmentCache[(llmqType, quorumHash)]? with
  | some cached => return cached
  | none =>
    let ret := s.evoDb.mined.contains (llmqType, quorumHash)
    set { s with
      hasMinedCommitmentCache := s.hasMinedCommitmentCache.insert (llmqType, quorumHash) ret }
    return ret

def addMinableCommitment [CommitmentHash] (s : QuorumBlockProcessor) (fqc : FinalCommitment) :
    Run QuorumBlockProcessor :=
  let commitmentHash := CommitmentHash.serializeHash fqc
  let k := (fqc.llmqType, fqc.quorumHash)
  match s.minableCommitmentsByQuorum[k]? with
  | none => .ok { s with
      minableCommitmentsByQuorum := s.minableCommitmentsByQuorum.insert k commitmentHash
      minableCommitments := s.minableCommitments.insertIfNew commitmentHash fqc }
  | some oldHash => do
    let oldFqc ← demand .outOfRange s.minableCommitments[oldHash]?
    if oldFqc.countSigners < fqc.countSigners then
      -- the source erases the new hash here, after it has overwritten the old one
      return { s with
        minableCommitmentsByQuorum := s.minableCommitmentsByQuorum.insert k commitmentHash
        minableCommitments :=
          (s.minableCommitments.erase commitmentHash).insertIfNew commitmentHash fqc }
    else return s

def undoCommitment [CommitmentHash] (nHeight : Nat) (s : QuorumBlockProcessor)
    (qc : FinalCommitment) : Run QuorumBlockProcessor :=
  if qc.isNull then .ok s
  else addMinableCommitment { s with
    evoDb := s.evoDb.remove nHeight qc
    hasMinedCommitmentCache := s.hasMinedCommitmentCache.erase (qc.llmqType, qc.quorumHash) } qc

def undoBlock [CommitmentHash] (s : QuorumBlockProcessor) (nHeight : Nat) (block : Block) :
    Run QuorumBlockProcessor := do
  let qcs ← getCommitmentsFromBlock env block nHeight
  (Maps.values qcs).foldlM (undoCommitment nHeight) s

end QuorumBlockProcessor

variable [ChainHash]

/-- The null hash when the active chain does not reach the start of the session. -/
def getQuorumBlockHash (chainActive : BlockIndex) (llmqType : LLMQType) (nHeight : Nat) :
    Run Uint256 := do
  let params ← env.consensus.getLLMQ llmqType
  return ((chainActive.getAncestor (params.quorumStartHeight nHeight)).map
    BlockIndex.getBlockHash).getD 0

namespace QuorumBlockProcessor
variable (view : ChainView) (chainActive : BlockIndex)

def isCommitmentRequired (llmqType : LLMQType) (nHeight : Nat) : Processing Bool := do
  let quorumHash ← liftM (getQuorumBlockHash env chainActive llmqType nHeight)
  -- the hash of the quorum is not known in the first block of a session
  if quorumHash = 0 then return false
  else
    let isMiningPhase ← liftM (isMiningPhase env llmqType nHeight)
    let hasMinedCommitment ← hasMinedCommitment llmqType quorumHash
    return isMiningPhase && !hasMinedCommitment

/-- The check of one quorum type in `ProcessBlock`. -/
def checkRequired (nHeight : Nat) (qcs : ExtTreeMap LLMQType FinalCommitment)
    (params : LLMQParams) : Processing Unit := do
  let hasCommitmentInNewBlock := qcs.contains params.type
  let isCommitmentRequired ← isCommitmentRequired env chainActive params.type nHeight
  liftM (denyIf (hasCommitmentInNewBlock ∧ !isCommitmentRequired ∧ commitmentCheckHeight < nHeight)
    100 .invalid "bad-qc-not-allowed")
  liftM (denyIf (!hasCommitmentInNewBlock ∧ isCommitmentRequired ∧ commitmentCheckHeight < nHeight)
    100 .invalid "bad-qc-missing")

/-- The part of `ProcessCommitment` for commitments that are not null. -/
def processNonNull (nHeight : Nat) (blockHash : Uint256) (qc : FinalCommitment)
    (params : LLMQParams) : Processing Unit := do
  let hasMined ← hasMinedCommitment params.type qc.quorumHash
  liftM (denyIf (hasMined = true) 100 .invalid "bad-qc-dup")
  let isMiningPhase ← liftM (isMiningPhase env params.type nHeight)
  liftM (denyIf (!isMiningPhase) 100 .invalid "bad-qc-height")
  let quorumIndex ← liftM (demand .outOfRange (view.findBlock qc.quorumHash))
  let members ← liftM (getAllQuorumMembers env view.ask params.type quorumIndex)
  let valid ← liftM (qc.verify env members true)
  liftM (denyIf (!valid) 100 .invalid "bad-qc-invalid")
  modify fun s => { s with
    evoDb := s.evoDb.store nHeight blockHash qc quorumIndex.nHeight
    hasMinedCommitmentCache := s.hasMinedCommitmentCache.erase (params.type, qc.quorumHash) }

def processCommitment (nHeight : Nat) (blockHash : Uint256) (qc : FinalCommitment) :
    Processing Unit :=
  if nHeight ≤ commitmentCheckHeight then pure ()
  else do
    let params ← liftM (env.consensus.getLLMQ qc.llmqType)
    let quorumHash ← liftM (getQuorumBlockHash env chainActive qc.llmqType nHeight)
    liftM (denyIf (quorumHash = 0) 100 .invalid "bad-qc-block")
    liftM (denyIf (quorumHash ≠ qc.quorumHash) 100 .invalid "bad-qc-block")
    if qc.isNull then liftM (denyIf (!qc.verifyNull env) 100 .invalid "bad-qc-invalid-null")
    else processNonNull env view nHeight blockHash qc params

/-- `ProcessBlock`, for a block on top of `pindexPrev`. -/
def processBlock (pindexPrev : BlockIndex) (block : Block) : Processing Unit :=
  let nHeight := pindexPrev.nHeight + 1
  if nHeight < env.consensus.DIP0003Height then pure ()
  else do
    let qcs ← liftM (getCommitmentsFromBlock env block nHeight)
    env.consensus.llmqs.forM (checkRequired env chainActive nHeight qcs)
    (Maps.values qcs).forM
      (processCommitment env view chainActive nHeight (pindexPrev.next block).getBlockHash)

end QuorumBlockProcessor

variable {env}
variable {type : LLMQType} {ret qcs : ExtTreeMap LLMQType FinalCommitment} {block : Block}
  {nHeight : Nat}

section

omit [ChainHash]

lemma ConsensusParams.type_of_findLLMQ {consensus : ConsensusParams} {params : LLMQParams}
    (h : consensus.findLLMQ type = some params) : params.type = type := by
  simpa using List.find?_some h

lemma addCommitment_ok {ret' : ExtTreeMap LLMQType FinalCommitment} {tx : Transaction}
    (h : addCommitment ret tx = .ok ret') :
    (ret' = ret ∧ ∀ payload, tx.payload ≠ .quorumCommitment payload) ∨
    ∃ qc, tx.payload = .quorumCommitment (some qc) ∧ qc.commitment.llmqType ∉ ret ∧
      ret' = ret.insert qc.commitment.llmqType qc.commitment := by
  unfold addCommitment at h
  split at h
  case h_1 payload hp =>
    obtain ⟨qc, hq, hr⟩ := bind_ok.1 h
    obtain ⟨_, hd, ht⟩ := bind_ok.1 hr
    obtain rfl := orDeny_ok.1 hq
    exact .inr ⟨qc, hp, by simpa using denyIf_ok.1 hd, (Except.ok.inj ht).symm⟩
  case h_2 hn => exact .inl ⟨(Except.ok.inj h).symm, hn⟩

lemma foldlM_addCommitment {txs : List Transaction} (h : txs.foldlM addCommitment ret = .ok qcs) :
    (∀ type ∈ ret, qcs[type]? = ret[type]?) ∧
    ∀ tx ∈ txs, ∀ payload, tx.payload = .quorumCommitment payload →
      ∃ qc, payload = some qc ∧ qcs[qc.commitment.llmqType]? = some qc.commitment := by
  induction txs generalizing ret with
  | nil => cases h; simp
  | cons tx txs ih =>
    obtain ⟨ret', ha, h⟩ := bind_ok.1 h
    obtain ⟨hk, hx⟩ := ih h
    rcases addCommitment_ok ha with ⟨rfl, ho⟩ | ⟨qc, hq, hn, rfl⟩
    · refine ⟨hk, fun tx' ht' payload hp => ?_⟩
      rcases List.mem_cons.1 ht' with rfl | ht'
      · exact absurd hp (ho payload)
      · exact hx tx' ht' payload hp
    · refine ⟨fun type ht => ?_, fun tx' ht' payload hp => ?_⟩
      · have hne : type ≠ qc.commitment.llmqType := fun he => hn (he ▸ ht)
        rw [hk type (by simp [ExtTreeMap.mem_insert, ht]), getElem?_insert, if_neg hne]
      · rcases List.mem_cons.1 ht' with rfl | ht'
        · obtain rfl : some qc = payload := by simpa [hq] using hp
          refine ⟨qc, rfl, ?_⟩
          rw [hk _ (by simp), getElem?_insert, if_pos rfl]
        · exact hx tx' ht' payload hp

lemma exists_of_foldlM_addCommitment {txs : List Transaction}
    (h : txs.foldlM addCommitment ret = .ok qcs) {qc : FinalCommitment}
    (hc : qcs[type]? = some qc) : ret[type]? = some qc ∨ (qc.llmqType = type ∧
      ∃ tx ∈ txs, ∃ qcTx, tx.payload = .quorumCommitment (some qcTx) ∧ qcTx.commitment = qc) := by
  induction txs generalizing ret with
  | nil => cases h; exact .inl hc
  | cons tx txs ih =>
    obtain ⟨ret', ha, h⟩ := bind_ok.1 h
    rcases ih h with hr' | ⟨ht, tx', ht', hq⟩
    · rcases addCommitment_ok ha with ⟨rfl, -⟩ | ⟨qcTx, hq, -, rfl⟩
      · exact .inl hr'
      · rw [getElem?_insert] at hr'
        split_ifs at hr' with ht
        · cases hr'
          exact .inr ⟨ht.symm, tx, by simp, qcTx, hq, rfl⟩
        · exact .inl hr'
    · exact .inr ⟨ht, tx', by simp [ht'], hq⟩

section
variable (h : getCommitmentsFromBlock env block nHeight = .ok qcs)
include h

lemma getCommitmentsFromBlock_ok :
    ∀ tx ∈ block.vtx, ∀ payload, tx.payload = .quorumCommitment payload →
      ∃ qc, payload = some qc ∧ qcs[qc.commitment.llmqType]? = some qc.commitment := by
  obtain ⟨ret, hr, h⟩ := bind_ok.1 h
  obtain ⟨_, -, h⟩ := bind_ok.1 h
  cases h
  exact (foldlM_addCommitment hr).2

lemma exists_of_getCommitmentsFromBlock {qc : FinalCommitment} (hq : qcs[type]? = some qc) :
    qc.llmqType = type ∧ ∃ tx ∈ block.vtx, ∃ qcTx, tx.payload = .quorumCommitment (some qcTx) ∧
        qcTx.commitment = qc := by
  obtain ⟨ret, hr, h⟩ := bind_ok.1 h
  obtain ⟨_, -, h⟩ := bind_ok.1 h
  cases h
  exact (exists_of_foldlM_addCommitment hr hq).resolve_left (by simp)

lemma nodup_types : ((Maps.values qcs).map llmqType).Nodup :=
  nodup_map_values fun _ _ hq => (exists_of_getCommitmentsFromBlock h hq).1

end
end

variable (env) in
/-- The commitment is for the session of the active chain at the height. -/
structure ForSession (chainActive : BlockIndex) (nHeight : Nat) (qc : FinalCommitment)
    (params : LLMQParams) : Prop where
  checked : commitmentCheckHeight < nHeight
  known : env.consensus.findLLMQ qc.llmqType = some params
  quorum : ∃ quorumIndex, chainActive.getAncestor (params.quorumStartHeight nHeight) =
    some quorumIndex ∧ quorumIndex.getBlockHash = qc.quorumHash
  ne_zero : qc.quorumHash ≠ 0

variable (env) in
/-- What `ProcessCommitment` makes of the database when it accepts a commitment. -/
inductive Processed (view : ChainView) (chainActive : BlockIndex) (nHeight : Nat)
    (blockHash : Uint256) (qc : FinalCommitment) (t : MinedTables) : MinedTables → Prop
  | unchecked (hheight : nHeight ≤ commitmentCheckHeight) :
    Processed view chainActive nHeight blockHash qc t t
  | null {params : LLMQParams} (hsession : ForSession env chainActive nHeight qc params)
    (hnull : qc.isNull = true) (hverify : qc.verifyNull env = true) :
    Processed view chainActive nHeight blockHash qc t t
  | stored {params : LLMQParams} {quorumIndex : BlockIndex} {members : List DeterministicMN}
    (hsession : ForSession env chainActive nHeight qc params) (hnull : qc.isNull = false)
    (hnew : (qc.llmqType, qc.quorumHash) ∉ t.mined)
    (hphase : isMiningPhase env qc.llmqType nHeight = .ok true)
    (hindex : view.findBlock qc.quorumHash = some quorumIndex)
    (hmembers : getAllQuorumMembers env view.ask qc.llmqType quorumIndex = .ok members)
    (hverify : qc.verify env members true = .ok true) :
    Processed view chainActive nHeight blockHash qc t
      (t.store nHeight blockHash qc quorumIndex.nHeight)

variable (env) in
inductive ProcessedAll (view : ChainView) (chainActive : BlockIndex) (nHeight : Nat)
    (blockHash : Uint256) (t : MinedTables) : List FinalCommitment → MinedTables → Prop
  | nil : ProcessedAll view chainActive nHeight blockHash t [] t
  | snoc {qcs : List FinalCommitment} {qc : FinalCommitment} {t' t'' : MinedTables}
    (hinit : ProcessedAll view chainActive nHeight blockHash t qcs t')
    (hlast : Processed env view chainActive nHeight blockHash qc t' t'') :
    ProcessedAll view chainActive nHeight blockHash t (qcs ++ [qc]) t''

variable (env) in
/-- What `ProcessBlock` makes of the database when it accepts a block. -/
inductive BlockProcessed (view : ChainView) (chainActive pindexPrev : BlockIndex) (block : Block)
    (t : MinedTables) : MinedTables → Prop
  | inactive (hheight : pindexPrev.nHeight + 1 < env.consensus.DIP0003Height) :
    BlockProcessed view chainActive pindexPrev block t t
  | active {qcs : ExtTreeMap LLMQType FinalCommitment} {t' : MinedTables}
    (hactive : env.consensus.DIP0003Height ≤ pindexPrev.nHeight + 1)
    (hqcs : getCommitmentsFromBlock env block (pindexPrev.nHeight + 1) = .ok qcs)
    (hall : ProcessedAll env view chainActive (pindexPrev.nHeight + 1)
      (pindexPrev.next block).getBlockHash t (Maps.values qcs) t') :
    BlockProcessed view chainActive pindexPrev block t t'

lemma ProcessedAll.contains_eq {view : ChainView} {chainActive : BlockIndex} {hash : Uint256}
    {t t' : MinedTables} {qcs : List FinalCommitment}
    (h : ProcessedAll env view chainActive nHeight hash t qcs t')
    (ht : type ∉ qcs.map llmqType) (quorumHash : Uint256) :
    t.mined.contains (type, quorumHash) = t'.mined.contains (type, quorumHash) := by
  induction h with
  | nil => rfl
  | snoc hi hl ih =>
    rw [List.map_append, List.mem_append, not_or] at ht
    rw [ih ht.1]
    cases hl with
    | unchecked | null => rfl
    | stored =>
      obtain ⟨-, hn⟩ := ht
      rw [List.map_singleton, List.mem_singleton] at hn
      simp [MinedTables.store, ExtTreeMap.contains_insert, Ne.symm hn]

namespace QuorumBlockProcessor
open Work (Triple)

def Remembers (s : QuorumBlockProcessor) (t : MinedTables) : Prop :=
  ∀ (k : LLMQType × Uint256) (b : Bool), s.hasMinedCommitmentCache[k]? = some b →
    b = t.mined.contains k

/-- Inside a block that was begun in `s0`: the database is `t`, the answers are right for it and for
the one that a rollback would bring back, and nothing else has changed. -/
structure Inside (s0 : QuorumBlockProcessor) (t : MinedTables) (s : QuorumBlockProcessor) :
    Prop where
  evoDb : s.evoDb = t
  before : s.Remembers s0.evoDb
  now : s.Remembers t
  byQuorum : s.minableCommitmentsByQuorum = s0.minableCommitmentsByQuorum
  minable : s.minableCommitments = s0.minableCommitments

omit [ChainHash] in
lemma Inside.refl {s : QuorumBlockProcessor} (h : s.Remembers s.evoDb) : Inside s s.evoDb s :=
  ⟨rfl, h, h, rfl, rfl⟩

variable {s0 : QuorumBlockProcessor} {t : MinedTables} {E : QuorumBlockProcessor → Prop}

omit [ChainHash] in
lemma exec_hasMinedCommitment (llmqType : LLMQType) (quorumHash : Uint256)
    (s : QuorumBlockProcessor) : Work.exec (hasMinedCommitment llmqType quorumHash) s =
      match s.hasMinedCommitmentCache[(llmqType, quorumHash)]? with
      | some cached => (.ok cached, s)
      | none => (.ok (s.evoDb.mined.contains (llmqType, quorumHash)), { s with
          hasMinedCommitmentCache := s.hasMinedCommitmentCache.insert (llmqType, quorumHash)
            (s.evoDb.mined.contains (llmqType, quorumHash)) }) := by
  unfold hasMinedCommitment
  rw [Work.exec_bind_ok (Work.exec_get s)]
  cases s.hasMinedCommitmentCache[(llmqType, quorumHash)]? <;> rfl

omit [ChainHash] in
lemma hasMinedCommitment_spec {llmqType : LLMQType} {quorumHash : Uint256}
    (hm : s0.evoDb.mined.contains (llmqType, quorumHash) =
      t.mined.contains (llmqType, quorumHash)) :
    Triple (Inside s0 t) (hasMinedCommitment llmqType quorumHash)
      (fun b s => b = t.mined.contains (llmqType, quorumHash) ∧ Inside s0 t s) E := by
  intro s hs
  rw [exec_hasMinedCommitment]
  cases hc : s.hasMinedCommitmentCache[(llmqType, quorumHash)]? with
  | some cached => exact ⟨hs.now _ _ hc, hs⟩
  | none =>
    have hr : ∀ t' : MinedTables, s.Remembers t' →
        t'.mined.contains (llmqType, quorumHash) = t.mined.contains (llmqType, quorumHash) →
        Remembers { s with
          hasMinedCommitmentCache := s.hasMinedCommitmentCache.insert (llmqType, quorumHash)
            (s.evoDb.mined.contains (llmqType, quorumHash)) } t' := by
      intro t' ht' hs' k b hk
      rw [getElem?_insert] at hk
      split_ifs at hk with he
      · rw [he, hs', ← hs.evoDb, ← Option.some.inj hk]
      · exact ht' k b hk
    refine ⟨by rw [hs.evoDb], hs.evoDb, hr s0.evoDb hs.before hm, ?_, hs.byQuorum,
      hs.minable⟩
    exact hr t hs.now rfl

variable {view : ChainView} {chainActive prev : BlockIndex} {nHeight : Nat}

variable (env s0 t chainActive nHeight) in
/-- A rollback would not change the answers for the sessions at the height. -/
def SameSessions : Prop :=
  ∀ llmqType quorumHash, getQuorumBlockHash env chainActive llmqType nHeight = .ok quorumHash →
    s0.evoDb.mined.contains (llmqType, quorumHash) = t.mined.contains (llmqType, quorumHash)

variable (env t chainActive nHeight) in
def Needed (llmqType : LLMQType) : Prop :=
  ∃ quorumHash, getQuorumBlockHash env chainActive llmqType nHeight = .ok quorumHash ∧
    quorumHash ≠ 0 ∧ isMiningPhase env llmqType nHeight = .ok true ∧
    t.mined.contains (llmqType, quorumHash) = false

variable {llmqType : LLMQType} {qcs : ExtTreeMap LLMQType FinalCommitment} {params : LLMQParams}
  {qc : FinalCommitment} {hash : Uint256} {block : Block} {t' : MinedTables}

lemma isCommitmentRequired_spec (hm : SameSessions env s0 t chainActive nHeight) :
    Triple (Inside s0 t) (isCommitmentRequired env chainActive llmqType nHeight)
      (fun b s => (b = true ↔ Needed env t chainActive nHeight llmqType) ∧ Inside s0 t s)
      (fun s => ∃ t', Inside s0 t' s) := by
  unfold isCommitmentRequired
  refine .bind_lift (fun quorumHash hq => ?_) fun s hs => ⟨t, hs⟩
  have hn : Needed env t chainActive nHeight llmqType ↔ quorumHash ≠ 0 ∧
      isMiningPhase env llmqType nHeight = .ok true ∧
      t.mined.contains (llmqType, quorumHash) = false := by
    simp [Needed, hq]
  refine .ite (fun hz => .pure fun s hs => ⟨by simp [hn, hz], hs⟩) fun hz => ?_
  refine .bind_lift (fun phase hp => ?_) fun s hs => ⟨t, hs⟩
  refine .bind (hasMinedCommitment_spec (hm _ _ hq)) fun ha => ?_
  refine .pure fun s hs => ⟨?_, hs.2⟩
  rw [hn, hs.1]
  simp [hz, hp]

lemma checkRequired_spec (hm : SameSessions env s0 t chainActive nHeight) :
    Triple (Inside s0 t) (checkRequired env chainActive nHeight qcs params)
      (fun _ s => (commitmentCheckHeight < nHeight →
        (qcs.contains params.type = true ↔ Needed env t chainActive nHeight params.type)) ∧
          Inside s0 t s) (fun s => ∃ t', Inside s0 t' s) := by
  unfold checkRequired
  refine .bind (isCommitmentRequired_spec hm) fun req => ?_
  refine .bind_lift (fun _ ha => ?_) fun s hs => ⟨t, hs.2⟩
  refine .lift (fun _ s hn hs => ⟨fun hh => ?_, hs.2⟩) fun s hs => ⟨t, hs.2⟩
  have ha := denyIf_ok.1 ha
  have hn := denyIf_ok.1 hn
  rw [← hs.1]
  grind

omit [ChainHash] in
lemma Inside.store {s : QuorumBlockProcessor} {quorumHeight : Nat} (h : Inside s0 t s) :
    Inside s0 (t.store nHeight hash qc quorumHeight) { s with
      evoDb := s.evoDb.store nHeight hash qc quorumHeight
      hasMinedCommitmentCache := s.hasMinedCommitmentCache.erase (qc.llmqType, qc.quorumHash) } := by
  refine ⟨by rw [h.evoDb], fun k b hk => ?_, fun k b hk => ?_, h.byQuorum, h.minable⟩ <;>
    rw [getElem?_erase] at hk <;> split_ifs at hk with hn
  · exact h.before k b hk
  · rw [h.now k b hk]
    simp [MinedTables.store, ExtTreeMap.contains_insert, Ne.symm hn]

lemma processNonNull_spec (hss : ForSession env chainActive nHeight qc params)
    (hn : qc.isNull = false)
    (hsm : s0.evoDb.mined.contains (qc.llmqType, qc.quorumHash) = t.mined.contains (qc.llmqType,
      qc.quorumHash)) : Triple (Inside s0 t) (processNonNull env view nHeight hash qc params)
      (fun _ s => ∃ t', Processed env view chainActive nHeight hash qc t t' ∧
        Inside s0 t' s) (fun s => ∃ t', Inside s0 t' s) := by
  unfold processNonNull
  rw [ConsensusParams.type_of_findLLMQ hss.known]
  refine .bind (hasMinedCommitment_spec hsm) fun ha => ?_
  refine .bind_lift (fun _ hd => ?_) fun s hs => ⟨t, hs.2⟩
  refine .bind_lift (fun phase hp => ?_) fun s hs => ⟨t, hs.2⟩
  refine .bind_lift (fun _ hh => ?_) fun s hs => ⟨t, hs.2⟩
  refine .bind_lift (fun index hi => ?_) fun s hs => ⟨t, hs.2⟩
  refine .bind_lift (fun members hm => ?_) fun s hs => ⟨t, hs.2⟩
  refine .bind_lift (fun valid hv => ?_) fun s hs => ⟨t, hs.2⟩
  refine .bind_lift (fun _ hl => ?_) fun s hs => ⟨t, hs.2⟩
  refine .modify fun s ⟨hmn, hs⟩ => ⟨_, .stored hss hn ?_ ?_ ?_ hm ?_, hs.store⟩
  · simpa [hmn] using denyIf_ok.1 hd
  · obtain rfl : phase = true := by simpa using denyIf_ok.1 hh
    exact hp
  · exact demand_ok.1 hi
  · obtain rfl : valid = true := by simpa using denyIf_ok.1 hl
    exact hv

lemma getQuorumBlockHash_ok {quorumHash : Uint256}
    (hk : env.consensus.findLLMQ llmqType = some params)
    (h : getQuorumBlockHash env chainActive llmqType nHeight = .ok quorumHash)
    (hn : quorumHash ≠ 0) :
    ∃ index, chainActive.getAncestor (params.quorumStartHeight nHeight) = some index ∧
      index.getBlockHash = quorumHash := by
  obtain ⟨params', hp, h⟩ := bind_ok.1 h
  obtain rfl : params' = params := by
    simpa [getLLMQ, hk, eq_comm] using hp
  cases h
  cases ha : chainActive.getAncestor (params'.quorumStartHeight nHeight) with
  | none => simp [ha] at hn
  | some index => exact ⟨index, rfl, rfl⟩

lemma processCommitment_spec
    (hm : ∀ quorumHash, getQuorumBlockHash env chainActive qc.llmqType nHeight =
      .ok quorumHash → s0.evoDb.mined.contains (qc.llmqType, quorumHash) =
        t.mined.contains (qc.llmqType, quorumHash)) :
    Triple (Inside s0 t) (processCommitment env view chainActive nHeight hash qc)
      (fun _ s => ∃ t', Processed env view chainActive nHeight hash qc t t' ∧
        Inside s0 t' s) (fun s => ∃ t', Inside s0 t' s) := by
  refine .ite (fun hh => .pure fun s hs => ⟨t, .unchecked hh, hs⟩) fun hh => ?_
  refine .bind_lift (fun params hp => ?_) fun s hs => ⟨t, hs⟩
  refine .bind_lift (fun quorumHash hq => ?_) fun s hs => ⟨t, hs⟩
  refine .bind_lift (fun _ hz => ?_) fun s hs => ⟨t, hs⟩
  refine .bind_lift (fun _ ho => ?_) fun s hs => ⟨t, hs⟩
  obtain rfl : quorumHash = qc.quorumHash := by simpa using denyIf_ok.1 ho
  have hk : env.consensus.findLLMQ qc.llmqType = some params := demand_ok.1 hp
  have hz := denyIf_ok.1 hz
  have hss : ForSession env chainActive nHeight qc params :=
    ⟨by omega, hk, getQuorumBlockHash_ok hk hq hz, hz⟩
  refine .ite (fun hn => ?_) fun hn =>
    processNonNull_spec hss (by simpa using hn) (hm _ hq)
  refine .lift (fun _ s hv hs => ⟨t, .null hss hn ?_, hs⟩) fun s hs => ⟨t, hs⟩
  simpa using denyIf_ok.1 hv

/-- The answers remembered while a block is processed stay right whether it is kept or not, if the
database that a rollback would bring back has the same answers at first. -/
lemma processBlock_spec (hsm : SameSessions env s0 t chainActive (prev.nHeight + 1)) :
    Triple (Inside s0 t) (processBlock env view chainActive prev block)
      (fun _ s => ∃ t', BlockProcessed env view chainActive prev block t t' ∧
        Inside s0 t' s) (fun s => ∃ t', Inside s0 t' s) := by
  refine .ite (fun hh => .pure fun s hs => ⟨_, .inactive hh, hs⟩) fun ha => ?_
  refine .bind_lift (fun qcs hc => ?_) fun s hs => ⟨t, hs⟩
  refine .bind (Q := fun _ => Inside s0 t) ?_ fun _ => ?_
  · exact .forM (fun _ => Inside s0 t) fun _ _ _ _ =>
      (checkRequired_spec hsm).conseq (fun _ hs => hs) (fun _ _ hs => hs.2) fun _ hs => hs
  · refine (Triple.forM (fun pre s => ∃ t', ProcessedAll env view chainActive
      (prev.nHeight + 1) (prev.next block).getBlockHash t pre t' ∧ Inside s0 t' s)
      fun pre qc post he => ?_).conseq (fun s hs => ⟨_, .nil, hs⟩) ?_ fun _ hs => hs
    · -- the type of the commitment differs from those before it
      have hn := nodup_types hc
      rw [he, List.map_append, List.map_cons] at hn
      have ht := (List.nodup_middle.1 hn).notMem
      rintro s ⟨t', hp, hs⟩
      refine (processCommitment_spec fun quorumHash hq => ?_).conseq (fun _ hs => hs) ?_
        (fun _ hs => hs) s hs
      · rw [hsm _ _ hq]
        exact hp.contains_eq (fun hm => ht (List.mem_append_left _ hm)) quorumHash
      · rintro _ s' ⟨t'', hl, hs'⟩
        exact ⟨t'', .snoc hp hl, hs'⟩
    · rintro _ s ⟨t', hal, hs⟩
      exact ⟨t', .active (not_lt.1 ha) hc hal, hs⟩

lemma Inside.processBlock {s s' : QuorumBlockProcessor} {r : Run Unit} (h : Inside s0 t s)
    (hs : SameSessions env s0 t chainActive (prev.nHeight + 1))
    (he : Work.exec (processBlock env view chainActive prev block) s = (r, s')) :
    ∃ t', Inside s0 t' s' := by
  cases r with
  | error e => exact (processBlock_spec hs).of_error h he
  | ok u =>
    obtain ⟨t', -, hs'⟩ := (processBlock_spec hs).of_ok h he
    exact ⟨t', hs'⟩

lemma getQuorumBlockHash_of_getAncestor {index : BlockIndex}
    (hk : env.consensus.findLLMQ llmqType = some params)
    (ha : chainActive.getAncestor (params.quorumStartHeight nHeight) = some index) :
    getQuorumBlockHash env chainActive llmqType nHeight = .ok index.getBlockHash := by
  simp [getQuorumBlockHash, getLLMQ, hk, ha]

lemma exec_isCommitmentRequired_ok (hk : env.consensus.findLLMQ llmqType = some params)
    (s : QuorumBlockProcessor) :
    ∃ b s', Work.exec (isCommitmentRequired env chainActive llmqType nHeight) s = (.ok b, s') := by
  have hp : env.consensus.getLLMQ llmqType = .ok params := demand_ok.2 hk
  have ht : Triple (fun _ => True) (isCommitmentRequired env chainActive llmqType nHeight)
      (fun _ _ => True) (fun _ => False) := by
    refine .bind_lift_ok (by rw [getQuorumBlockHash, hp]; rfl) ?_
    refine .ite (fun _ => .pure fun _ _ => trivial) fun _ => ?_
    refine .bind_lift_ok (by rw [isMiningPhase, hp]; rfl) ?_
    refine .bind (Q := fun _ _ => True) (fun s _ => ?_) fun _ => .pure fun _ _ => trivial
    rw [exec_hasMinedCommitment]
    split
    · trivial
    · rename_i hq
      split at hq <;> cases hq
  obtain ⟨b, s', he, -⟩ := ht.exists_ok trivial
  exact ⟨b, s', he⟩

lemma checkRequired_accepts (hk : env.consensus.findLLMQ params.type = some params)
    (hn : qcs.contains params.type = true ↔ Needed env s0.evoDb chainActive nHeight params.type) :
    Triple (Inside s0 s0.evoDb) (checkRequired env chainActive nHeight qcs params)
      (fun _ => Inside s0 s0.evoDb) E := by
  have hr : Triple (Inside s0 s0.evoDb) (isCommitmentRequired env chainActive params.type nHeight)
      (fun b s => b = qcs.contains params.type ∧ Inside s0 s0.evoDb s) E := by
    intro s hs
    obtain ⟨b, s', he⟩ : ∃ b s', Work.exec
        (isCommitmentRequired env chainActive params.type nHeight) s = (.ok b, s') :=
      exec_isCommitmentRequired_ok hk s
    obtain ⟨hb, hs'⟩ := (isCommitmentRequired_spec fun _ _ _ => rfl).of_ok hs he
    rw [he]
    exact ⟨Bool.eq_iff_iff.2 (hb.trans hn.symm), hs'⟩
  refine .bind hr fun req s ⟨hb, hs⟩ => ?_
  have ha : ¬ (qcs.contains params.type = true ∧ (!req) = true ∧
      commitmentCheckHeight < nHeight) := by
    grind
  have hnn : ¬ ((!qcs.contains params.type) = true ∧ req = true ∧
      commitmentCheckHeight < nHeight) := by
    grind
  refine Triple.bind_denyIf ha ?_ s hs
  exact .denyIf hnn fun s hs => hs

lemma processCommitment_accepts
    (hsm : s0.evoDb.mined.contains (qc.llmqType, qc.quorumHash) = t.mined.contains (qc.llmqType,
      qc.quorumHash)) (h : Processed env view chainActive nHeight hash qc t t') :
    Triple (Inside s0 t) (processCommitment env view chainActive nHeight hash qc)
      (fun _ => Inside s0 t') E := by
  -- the checks that null commitments pass as well
  have hf : ∀ {params : LLMQParams}, ForSession env chainActive nHeight qc params →
      Triple (Inside s0 t) (if qc.isNull then
          liftM (denyIf (!qc.verifyNull env) 100 .invalid "bad-qc-invalid-null")
        else processNonNull env view nHeight hash qc params) (fun _ => Inside s0 t') E →
      Triple (Inside s0 t) (processCommitment env view chainActive nHeight hash qc)
        (fun _ => Inside s0 t') E := by
    intro params hss hr
    obtain ⟨index, ha, hhs⟩ := hss.quorum
    refine .ite (fun hl => absurd hss.checked (not_lt.2 hl)) fun _ => ?_
    refine .bind_lift_ok (demand_ok.2 hss.known) ?_
    refine .bind_lift_ok (getQuorumBlockHash_of_getAncestor hss.known ha) ?_
    rw [hhs]
    exact .bind_denyIf hss.ne_zero (.bind_denyIf (by simp) hr)
  cases h with
  | unchecked hh =>
    exact .ite (fun _ => .pure fun s hs => hs) fun hg => absurd hh hg
  | null hss hn hv =>
    refine hf hss ?_
    rw [if_pos hn]
    exact .denyIf (by simp [hv]) fun s hs => hs
  | stored hss hn hw hp hi hm hv =>
    refine hf hss ?_
    rw [if_neg (by simp [hn]), processNonNull, ConsensusParams.type_of_findLLMQ hss.known]
    refine .bind (hasMinedCommitment_spec hsm) fun ham s ⟨hmn, hs⟩ => ?_
    refine Triple.bind_denyIf (by simpa [hmn] using hw) ?_ s hs
    refine .bind_lift_ok hp (.bind_denyIf (by simp) ?_)
    refine .bind_lift_ok (demand_ok.2 hi) (.bind_lift_ok hm ?_)
    refine .bind_lift_ok hv (.bind_denyIf (by simp) ?_)
    exact .modify fun s hs => hs.store

lemma forM_processCommitment_accepts {qcs : List FinalCommitment}
    (hn : (qcs.map FinalCommitment.llmqType).Nodup)
    (h : ProcessedAll env view chainActive nHeight hash s0.evoDb qcs t') :
    Triple (Inside s0 s0.evoDb)
      (qcs.forM (processCommitment env view chainActive nHeight hash))
      (fun _ => Inside s0 t') E := by
  induction h with
  | nil => exact .pure fun s hs => hs
  | @snoc qcs qc t1 t2 hi hl ih =>
    rw [List.map_append, List.nodup_append] at hn
    have hw : qc.llmqType ∉ qcs.map llmqType := fun hm =>
      hn.2.2 _ hm _ (by simp) rfl
    have hsm := hi.contains_eq hw qc.quorumHash
    exact .forM_snoc (ih hn.1) (processCommitment_accepts hsm hl)

lemma processBlock_accepts (ha : env.consensus.DIP0003Height ≤ prev.nHeight + 1)
    (hq : getCommitmentsFromBlock env block (prev.nHeight + 1) = .ok qcs)
    (hr : ∀ params ∈ env.consensus.llmqs,
      Triple (Inside s0 s0.evoDb) (checkRequired env chainActive (prev.nHeight + 1) qcs params)
        (fun _ => Inside s0 s0.evoDb) E)
    (hl : ProcessedAll env view chainActive (prev.nHeight + 1)
      (prev.next block).getBlockHash s0.evoDb (Maps.values qcs) t') :
    Triple (Inside s0 s0.evoDb) (processBlock env view chainActive prev block)
      (fun _ => Inside s0 t') E := by
  refine .ite (fun ht => absurd ha (not_le.2 ht)) fun _ => .bind_lift_ok hq ?_
  refine .bind (.forM (fun _ => Inside s0 s0.evoDb) fun pre params post he => ?_) fun _ => ?_
  · exact hr params (by rw [he]; simp)
  · exact forM_processCommitment_accepts (nodup_types hq) hl

end QuorumBlockProcessor
end Trivechain.Llmq
