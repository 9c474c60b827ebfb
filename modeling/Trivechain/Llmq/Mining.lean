import Trivechain.Evo.QuorumRootRuns

/-!
# Commitments for the miner

Final commitments arrive in `QFCOMMITMENT` messages. The processor wants to keep the one with the
most signers of each quorum for the miner. `AddMinableCommitment` replaces a commitment by one with
more signers, but before that `ProcessMessage` drops a message if the known commitment has *at most*
as many signers. So of the messages for a quorum the first valid one wins. Where a commitment is
replaced, the old one is not forgotten: `AddMinableCommitment` erases the hash of the new one.
-/

namespace Trivechain.Llmq
open Evo CommitmentHash
open Run (demand)
open Std (ExtTreeMap)
open Work (Triple)
open Run Work List

/-- The null commitment, `CFinalCommitment(params, quorumHash)`. -/
def FinalCommitment.null (params : LLMQParams) (quorumHash : Uint256) : FinalCommitment where
  llmqType := params.type
  quorumHash
  signers := replicate params.size false
  validMembers := replicate params.size false

section Mining
variable [ChainHash] (env : Env)

namespace QuorumBlockProcessor

/-- The check of `ProcessMessage` for a better commitment that is known already. -/
def dropsCommitment (s : QuorumBlockProcessor) (qc : FinalCommitment) : Bool :=
  match s.minableCommitmentsByQuorum[(qc.llmqType, qc.quorumHash)]? with
  | none => false
  | some commitmentHash =>
    match s.minableCommitments[commitmentHash]? with
    | none => false
    | some known => known.countSigners ≤ qc.countSigners

/-- `ProcessMessage` for `QFCOMMITMENT`: the new state and the score for `Misbehaving`. -/
def processMessage [CommitmentHash] (view : ChainView) (chainActive : BlockIndex)
    (s : QuorumBlockProcessor) (qc : FinalCommitment) : Run (QuorumBlockProcessor × Nat) :=
  if qc.isNull then .ok (s, 100)
  else
    match env.consensus.findLLMQ qc.llmqType with
    | none => .ok (s, 100)
    | some params =>
      match view.findBlock qc.quorumHash with
      -- we might simply be the one that is on the wrong chain
      | none => .ok (s, 0)
      | some pquorumIndex =>
        if chainActive.getAncestor pquorumIndex.nHeight ≠ some pquorumIndex then .ok (s, 0)
        else if params.quorumStartHeight pquorumIndex.nHeight ≠ pquorumIndex.nHeight then
          .ok (s, 100)
        else if s.dropsCommitment qc then .ok (s, 0)
        else do
          let members ← getAllQuorumMembers env view.ask qc.llmqType pquorumIndex
          let valid ← qc.verify env members true
          if !valid then return (s, 100)
          else
            let s ← s.addMinableCommitment qc
            return (s, 0)

/-- `none` if no commitment should be mined. -/
def getMinableCommitment (chainActive : BlockIndex) (llmqType : LLMQType) (nHeight : Nat) :
    Processing (Option FinalCommitment) := do
  let required ← isCommitmentRequired env chainActive llmqType nHeight
  if !required then return none
  else
    let quorumHash ← liftM (getQuorumBlockHash env chainActive llmqType nHeight)
    if quorumHash = 0 then return none
    else
      let s ← get
      match s.minableCommitmentsByQuorum[(llmqType, quorumHash)]? with
      | none =>
        let params ← liftM (env.consensus.getLLMQ llmqType)
        return some (.null params quorumHash)
      | some commitmentHash =>
        let qc ← liftM (demand .outOfRange s.minableCommitments[commitmentHash]?)
        return some qc

end QuorumBlockProcessor

open QuorumBlockProcessor

structure QuorumMessage where
  view : ChainView
  chainActive : BlockIndex
  qc : FinalCommitment

/-- The message has a commitment for the quorum that passes all checks of `ProcessMessage` but the
one for a better one. -/
structure QuorumMessage.Valid (m : QuorumMessage) (k : LLMQType × Uint256) : Prop where
  key : (m.qc.llmqType, m.qc.quorumHash) = k
  notNull : m.qc.isNull = false
  verified : ∃ params pquorumIndex members,
    env.consensus.findLLMQ m.qc.llmqType = some params ∧
    m.view.findBlock m.qc.quorumHash = some pquorumIndex ∧
    m.chainActive.getAncestor pquorumIndex.nHeight = some pquorumIndex ∧
    params.quorumStartHeight pquorumIndex.nHeight = pquorumIndex.nHeight ∧
    getAllQuorumMembers env m.view.ask m.qc.llmqType pquorumIndex = .ok members ∧
    m.qc.verify env members true = .ok true

namespace QuorumBlockProcessor
variable [CommitmentHash]

def receive (s : QuorumBlockProcessor) (m : QuorumMessage) : Run QuorumBlockProcessor :=
  Prod.fst <$> processMessage env m.view m.chainActive s m.qc

def receiveAll (s : QuorumBlockProcessor) (ms : List QuorumMessage) : Run QuorumBlockProcessor :=
  ms.foldlM (receive env) s

def Keeps (s : QuorumBlockProcessor) (k : LLMQType × Uint256) (qc : FinalCommitment) : Prop :=
  ∃ commitmentHash, s.minableCommitmentsByQuorum[k]? = some commitmentHash ∧
    s.minableCommitments[commitmentHash]? = some qc

variable {env} {s s' : QuorumBlockProcessor} {k : LLMQType × Uint256} {m : QuorumMessage}

lemma receive_valid (hv : m.Valid env k) : s.receive env m =
    if s.dropsCommitment m.qc then .ok s else s.addMinableCommitment m.qc := by
  obtain ⟨params, pquorumIndex, members, hk, hn, hc, hf, hm, hr⟩ := hv.verified
  simp only [receive, processMessage, hv.notNull, hk, hn, hc, hf, hm,
    hr, Bool.false_eq_true, if_false, ne_eq, not_true_eq_false, ok_bind, Bool.not_true]
  split_ifs with hd
  · rfl
  · cases s.addMinableCommitment m.qc <;> rfl

lemma receive_first (hv : m.Valid env k) (hn : s.minableCommitmentsByQuorum[k]? = none)
    (hf : s.minableCommitments[serializeHash m.qc]? = none)
    (h : s.receive env m = .ok s') : s'.Keeps k m.qc := by
  obtain rfl := hv.key
  rw [receive_valid hv, if_neg (by simp [dropsCommitment, hn]), addMinableCommitment] at h
  simp only [hn] at h
  cases h
  exact ⟨_, by rw [Maps.getElem?_insert, if_pos rfl],
    by rw [Maps.getElem?_insertIfNew, if_pos ⟨rfl, hf⟩]⟩

variable {first : FinalCommitment} {chainActive : BlockIndex} {llmqType : LLMQType} {nHeight : Nat}

lemma receive_later (hk : s.Keeps k first) (hv : m.Valid env k) : s.receive env m = .ok s := by
  obtain rfl := hv.key
  obtain ⟨commitmentHash, hh, hf⟩ := hk
  rw [receive_valid hv]
  split_ifs with hd
  · rfl
  · have hw : ¬ first.countSigners < m.qc.countSigners := by
      simp only [dropsCommitment, hh, hf, decide_eq_true_eq] at hd
      omega
    simp only [addMinableCommitment, hh, hf, demand_some, ok_bind, if_neg hw]
    rfl

lemma receiveAll_keeps {ms : List QuorumMessage} (hk : s.Keeps k first)
    (hv : ∀ m ∈ ms, m.Valid env k) : s.receiveAll env ms = .ok s := by
  induction ms with
  | nil => rfl
  | cons m ms ih =>
    rw [receiveAll, foldlM_cons, receive_later hk (hv m (by simp)), ok_bind]
    exact ih fun m' hm' => hv m' (by simp [hm'])

omit [CommitmentHash] in
lemma isCommitmentRequired_keeps
    {P : ExtTreeMap (LLMQType × Uint256) Uint256 → ExtTreeMap Uint256 FinalCommitment → Prop} :
    Triple (fun s => P s.minableCommitmentsByQuorum s.minableCommitments)
      (isCommitmentRequired env chainActive llmqType nHeight)
      (fun _ s => P s.minableCommitmentsByQuorum s.minableCommitments) (fun _ => True) := by
  refine .bind_lift (fun quorumHash _ => ?_) fun _ _ => trivial
  refine .ite (fun _ => .pure fun s hs => hs) fun _ => ?_
  refine .bind_lift (fun phase _ => ?_) fun _ _ => trivial
  refine .bind (Q := fun _ s => P s.minableCommitmentsByQuorum s.minableCommitments)
    (fun s hs => ?_) fun _ => .pure fun s hs => hs
  rw [exec_hasMinedCommitment]
  split
  · rename_i he
    split at he <;> cases he <;> exact hs
  · trivial

def Offers (s : QuorumBlockProcessor) (params : LLMQParams) (quorumHash : Uint256)
    (qc : FinalCommitment) : Prop :=
  (s.minableCommitmentsByQuorum[(params.type, quorumHash)]? = none ∧ qc = .null params quorumHash) ∨
    s.Keeps (params.type, quorumHash) qc

omit [CommitmentHash]

lemma getMinableCommitment_kept (chainActive : BlockIndex) (nHeight : Nat) {qc : FinalCommitment}
    (hq : getQuorumBlockHash env chainActive k.1 nHeight = .ok k.2) :
    Triple (Keeps · k qc) (getMinableCommitment env chainActive k.1 nHeight)
      (fun ret _ => ∀ ret' ∈ ret, ret' = qc) (fun _ => True) := by
  refine .bind (isCommitmentRequired_keeps (P := fun byQuorum minable =>
    ∃ commitmentHash, byQuorum[k]? = some commitmentHash ∧ minable[commitmentHash]? = some qc))
    fun required => ?_
  refine .ite (fun _ => .pure fun s _ => by simp) fun _ => ?_
  refine .bind_lift_ok hq ?_
  refine .ite (fun _ => .pure fun s _ => by simp) fun _ => ?_
  refine .bind_get fun s ⟨commitmentHash, hh, hc⟩ => ?_
  rw [hh]
  refine .bind_lift (fun found hf => .pure ?_) fun _ _ => trivial
  rintro _ - ret' hr'
  cases hr'
  exact (Option.some.inj (hc.symm.trans (demand_ok.1 hf))).symm

lemma getMinableCommitment_total (chainActive : BlockIndex) (nHeight : Nat) {params : LLMQParams}
    (hk : env.consensus.findLLMQ params.type = some params) (hs : s.Remembers s.evoDb)
    (hkp : ∀ (k : LLMQType × Uint256) (h : Uint256), s.minableCommitmentsByQuorum[k]? = some h →
      (s.minableCommitments[h]?).isSome) :
    ∃ ret s', Work.exec (getMinableCommitment env chainActive params.type nHeight) s =
        (.ok ret, s') ∧ s.Inside s.evoDb s' ∧
      ((ret = none ∧ ¬ Needed env s.evoDb chainActive nHeight params.type) ∨
        ∃ quorumHash qc, ret = some qc ∧ Needed env s.evoDb chainActive nHeight params.type ∧
          getQuorumBlockHash env chainActive params.type nHeight = .ok quorumHash ∧
          s.Offers params quorumHash qc) := by
  obtain ⟨required, s1, he⟩ : ∃ b s', Work.exec
      (isCommitmentRequired env chainActive params.type nHeight) s = (.ok b, s') :=
    exec_isCommitmentRequired_ok hk s
  obtain ⟨hr, hi⟩ := (isCommitmentRequired_spec fun _ _ _ => rfl).of_ok (Inside.refl hs) he
  rw [getMinableCommitment, exec_bind_ok he]
  by_cases hn : Needed env s.evoDb chainActive nHeight params.type
  · rw [if_neg (by simp [hr.2 hn])]
    obtain ⟨quorumHash, hq, hz, -⟩ := id hn
    rw [exec_bind_ok (exec_lift_ok hq), if_neg hz,
      exec_bind_ok (exec_get s1), hi.byQuorum, hi.minable]
    cases hh : s.minableCommitmentsByQuorum[(params.type, quorumHash)]? with
    | none =>
      have hp : env.consensus.getLLMQ params.type = .ok params := demand_ok.2 hk
      dsimp only
      rw [exec_bind_ok (exec_lift_ok hp)]
      exact ⟨_, _, rfl, hi, .inr ⟨quorumHash, _, rfl, hn, hq, .inl ⟨hh, rfl⟩⟩⟩
    | some commitmentHash =>
      obtain ⟨qc, hc⟩ := Option.isSome_iff_exists.1 (hkp _ _ hh)
      dsimp only
      rw [exec_bind_ok (exec_lift_ok (demand_ok.2 hc))]
      exact ⟨_, _, rfl, hi, .inr ⟨quorumHash, qc, rfl, hn, hq, .inr ⟨commitmentHash, hh, hc⟩⟩⟩
  · rw [if_pos (by simp [mt hr.1 hn])]
    exact ⟨none, s1, rfl, hi, .inl ⟨rfl, hn⟩⟩

end QuorumBlockProcessor

/-- The commitment for the miner has the most signers of all received just if the first one had. -/
theorem minable_maximal_iff [CommitmentHash] (k : LLMQType × Uint256) (s s' : QuorumBlockProcessor)
    (m : QuorumMessage) (ms : List QuorumMessage) (chainActive : BlockIndex) (nHeight : Nat)
    (ret : FinalCommitment) (hvalid : ∀ m' ∈ m :: ms, m'.Valid env k)
    (hnew : s.minableCommitmentsByQuorum[k]? = none)
    (hfree : s.minableCommitments[serializeHash m.qc]? = none)
    (hs' : s.receiveAll env (m :: ms) = .ok s')
    (hquorum : getQuorumBlockHash env chainActive k.1 nHeight = .ok k.2)
    (hret : (Work.exec (getMinableCommitment env chainActive k.1 nHeight) s').1 = .ok (some ret)) :
    (∀ m' ∈ m :: ms, m'.qc.countSigners ≤ ret.countSigners) ↔
      ∀ m' ∈ ms, m'.qc.countSigners ≤ m.qc.countSigners := by
  obtain ⟨s1, hf, hr⟩ := Run.bind_ok.1 hs'
  have hk := receive_first (hvalid m (by simp)) hnew hfree hf
  obtain rfl : s1 = s' := Except.ok.inj ((receiveAll_keeps hk
    fun m' hm' => hvalid m' (by simp [hm'])).symm.trans hr)
  rcases he : Work.exec (getMinableCommitment env chainActive k.1 nHeight) s1 with ⟨r, s2⟩
  rw [he] at hret
  obtain rfl : r = .ok (some ret) := hret
  obtain rfl := (getMinableCommitment_kept chainActive nHeight hquorum).of_ok hk he ret rfl
  simp

end Mining

namespace Improved
open Remined

section
variable [ChainHash] [CommitmentHash]

def message (signers : List Bool) : QuorumMessage := ⟨view, tip, commitment signers⟩

def key : LLMQType × Uint256 := (LLMQ_5_60, quorum.getBlockHash)

variable {signers : List Bool}

section

omit [CommitmentHash]

lemma valid_message (hs : signers.length = 5) (hc : 4 ≤ signers.count true) :
    (message signers).Valid env key where
  key := rfl
  notNull := by simp [message, commitment, FinalCommitment.isNull]
  verified := by
    have hh : quorum.nHeight = 465000 := nHeight_idle _
    have hk : env.consensus.findLLMQ LLMQ_5_60 = some llmq5_60 := by decide
    refine ⟨llmq5_60, quorum, list.calculateQuorum env 5 0, hk, if_pos rfl, ?_, ?_, rfl,
      verify_commitment hs hc length_members⟩
    · rw [hh]
      exact getAncestor_tip
    · rw [hh]
      decide

lemma quorumBlockHash_tip : getQuorumBlockHash env tip key.1 (tip.nHeight + 1) = .ok key.2 := by
  have hk : env.consensus.findLLMQ LLMQ_5_60 = some llmq5_60 := by decide
  refine QuorumBlockProcessor.getQuorumBlockHash_of_getAncestor hk ?_
  rw [nHeight_tip]
  exact getAncestor_tip

end

lemma first_offered (hne : quorum.getBlockHash ≠ 0) (hs : signers.length = 5)
    (hc : 4 ≤ signers.count true) {ms : List QuorumMessage} (hm : ∀ m ∈ ms, m.Valid env key) :
    ∃ s, QuorumBlockProcessor.receiveAll env {} (message signers :: ms) = .ok s ∧
      (Work.exec (QuorumBlockProcessor.getMinableCommitment env tip key.1 (tip.nHeight + 1)) s).1 =
        .ok (some (commitment signers)) := by
  have hv := valid_message hs hc
  let s : QuorumBlockProcessor := {
    minableCommitmentsByQuorum := (∅ : ExtTreeMap _ _).insert key
      (serializeHash (commitment signers))
    minableCommitments := (∅ : ExtTreeMap _ _).insertIfNew
      (serializeHash (commitment signers)) (commitment signers) }
  have hr : QuorumBlockProcessor.receive env {} (message signers) = .ok s := by
    rw [QuorumBlockProcessor.receive_valid hv,
      if_neg (by simp [QuorumBlockProcessor.dropsCommitment]),
      QuorumBlockProcessor.addMinableCommitment]
    simp only [ExtTreeMap.getElem?_empty]
    rfl
  have hp : s.Keeps key (commitment signers) :=
    QuorumBlockProcessor.receive_first hv (by simp) (by simp) hr
  refine ⟨s, ?_, ?_⟩
  · rw [QuorumBlockProcessor.receiveAll, foldlM_cons, hr, ok_bind]
    exact QuorumBlockProcessor.receiveAll_keeps hp hm
  · have hn : QuorumBlockProcessor.Needed env s.evoDb tip (tip.nHeight + 1) llmq5_60.type :=
      ⟨_, quorumBlockHash_tip, hne, by rw [nHeight_tip]; rfl, by simp [s]⟩
    have hke : ∀ (k : LLMQType × Uint256) (h : Uint256),
        s.minableCommitmentsByQuorum[k]? = some h → (s.minableCommitments[h]?).isSome := by
      intro k h hk
      rw [Maps.getElem?_insert] at hk
      split_ifs at hk
      · cases hk
        rw [Maps.getElem?_insertIfNew, if_pos ⟨rfl, by simp⟩, Option.isSome_some]
      · simp at hk
    have hkn : env.consensus.findLLMQ llmq5_60.type = some llmq5_60 := by decide
    obtain ⟨ret, s', he, -, ⟨-, ht⟩ | ⟨quorumHash, qc, rfl, -, -, -⟩⟩ :=
      QuorumBlockProcessor.getMinableCommitment_total tip (tip.nHeight + 1) hkn
        (fun k b hk => by simp [s] at hk) hke
    · exact absurd hn ht
    · have hy : llmq5_60.type = key.1 := rfl
      rw [hy] at he
      have hq := (QuorumBlockProcessor.getMinableCommitment_kept tip _
        quorumBlockHash_tip).of_ok hp he qc rfl
      rw [he, hq]

end

local instance : ChainHash := tableHash [] [idle 0]
local instance : CommitmentHash := ⟨fun _ => 0⟩

/-- A commitment with four signers stays when one with five arrives. -/
theorem better_commitment_dropped : ∃ s ret, (∀ m ∈ [message four, message five], m.Valid env key) ∧
    QuorumBlockProcessor.receiveAll env {} [message four, message five] = .ok s ∧
    (Work.exec (QuorumBlockProcessor.getMinableCommitment env tip key.1 (tip.nHeight + 1)) s).1 =
      .ok (some ret) ∧
    ¬ ∀ m ∈ [message four, message five], m.qc.countSigners ≤ ret.countSigners := by
  have hf := valid_message (rfl : five.length = 5) (by decide)
  obtain ⟨s, hs, hr⟩ := first_offered quorumHash_ne_zero (rfl : four.length = 5) (by decide)
    (forall_mem_singleton.2 hf)
  refine ⟨s, commitment four, ?_, hs, hr, fun hm => ?_⟩
  · simp only [mem_cons, not_mem_nil, or_false, forall_eq_or_imp, forall_eq]
    exact ⟨valid_message rfl (by decide), hf⟩
  · have hc : five.count true ≤ four.count true := hm (message five) (by simp)
    exact absurd hc (by decide)

theorem best_commitment_first : ∃ s ret,
    QuorumBlockProcessor.receiveAll env {} [message five, message four] = .ok s ∧
    (Work.exec (QuorumBlockProcessor.getMinableCommitment env tip key.1 (tip.nHeight + 1)) s).1 =
      .ok (some ret) ∧
    ∀ m ∈ [message five, message four], m.qc.countSigners ≤ ret.countSigners := by
  have hf := valid_message (rfl : four.length = 5) (by decide)
  obtain ⟨s, hs, hr⟩ := first_offered quorumHash_ne_zero (rfl : five.length = 5) (by decide)
    (forall_mem_singleton.2 hf)
  have hv : ∀ m ∈ [message five, message four], m.Valid env key := by
    simp only [mem_cons, not_mem_nil, or_false, forall_eq_or_imp, forall_eq]
    exact ⟨valid_message rfl (by decide), hf⟩
  refine ⟨s, commitment five, hs, hr, ?_⟩
  refine (minable_maximal_iff env key {} s _ _ tip (tip.nHeight + 1) _ hv (by simp) (by simp) hs
    quorumBlockHash_tip hr).2 (forall_mem_singleton.2 ?_)
  exact (by decide : four.count true ≤ five.count true)

end Improved

namespace QuorumBlockProcessor
open Option Maps
variable [CommitmentHash] {s s' : QuorumBlockProcessor} {fqc : FinalCommitment}

structure WellKept (s : QuorumBlockProcessor) : Prop where
  hashed : ∀ (h : Uint256) (qc : FinalCommitment), s.minableCommitments[h]? = some qc →
    serializeHash qc = h
  found : ∀ (k : LLMQType × Uint256) (h : Uint256), s.minableCommitmentsByQuorum[k]? = some h →
    ∃ qc, s.minableCommitments[h]? = some qc ∧ (qc.llmqType, qc.quorumHash) = k

/-- What can be found by its hash is what is kept for its quorum. -/
structure Selected (s : QuorumBlockProcessor) : Prop extends WellKept s where
  selected : ∀ (h : Uint256) (qc : FinalCommitment), s.minableCommitments[h]? = some qc →
    s.minableCommitmentsByQuorum[(qc.llmqType, qc.quorumHash)]? = some h

def kept (s : QuorumBlockProcessor) (k : LLMQType × Uint256) : Option FinalCommitment :=
  s.minableCommitmentsByQuorum[k]?.bind (s.minableCommitments[·]?)

/-- The first commitment of each quorum has the most signers. -/
def FirstBest (qcs : List FinalCommitment) : Prop :=
  ∀ qc ∈ qcs, ∀ first ∈ qcs.find? fun qc' =>
    (qc'.llmqType, qc'.quorumHash) = (qc.llmqType, qc.quorumHash),
    ¬ first.countSigners < qc.countSigners

instance (qcs : List FinalCommitment) : Decidable (FirstBest qcs) := by
  unfold FirstBest
  infer_instance

/-- The new commitment is kept, and those known before can still be found. -/
structure Replaced (s s' : QuorumBlockProcessor) (fqc : FinalCommitment) : Prop where
  byQuorum : s'.minableCommitmentsByQuorum = s.minableCommitmentsByQuorum.insert
    (fqc.llmqType, fqc.quorumHash) (serializeHash fqc)
  minable : ∀ h : Uint256, s'.minableCommitments[h]? =
    if h = serializeHash fqc then some fqc else s.minableCommitments[h]?

section
variable (hinj : Function.Injective (serializeHash))
include hinj

lemma Replaced.wellKept (hr : Replaced s s' fqc) (h : s.WellKept) : s'.WellKept := by
  constructor
  · intro hash qc hq
    rw [hr.minable] at hq
    split_ifs at hq with he
    · rw [he, ← some.inj hq]
    · exact h.hashed hash qc hq
  · intro k hash hk
    rw [hr.byQuorum, Maps.getElem?_insert] at hk
    split_ifs at hk with he
    · cases hk
      exact ⟨fqc, by rw [hr.minable, if_pos rfl], he.symm⟩
    · obtain ⟨qc, hq, hy⟩ := h.found k hash hk
      refine ⟨qc, ?_, hy⟩
      rw [hr.minable]
      split_ifs with hh
      · rw [hinj ((h.hashed hash qc hq).trans hh)]
      · exact hq

lemma Replaced.kept_eq (hr : Replaced s s' fqc) (h : s.WellKept) (k : LLMQType × Uint256) :
    s'.kept k = if k = (fqc.llmqType, fqc.quorumHash) then some fqc else s.kept k := by
  rw [kept, hr.byQuorum, Maps.getElem?_insert]
  split_ifs with hk
  · rw [bind_some, hr.minable, if_pos rfl]
  · cases hb : s.minableCommitmentsByQuorum[k]? with
    | none =>
      rw [kept, hb]
      rfl
    | some hash =>
      obtain ⟨qc, hq, hy⟩ := h.found k hash hb
      rw [kept, hb, bind_some, bind_some, hr.minable, if_neg]
      rintro rfl
      rw [hinj (h.hashed _ qc hq)] at hy
      exact hk hy.symm

/-- A call changes nothing if what is kept has enough signers. -/
lemma WellKept.addMinableCommitment (h : s.WellKept) (fqc : FinalCommitment) :
    ∃ s', s.addMinableCommitment fqc = .ok s' ∧
      ((s' = s ∧ ∃ old, s.kept (fqc.llmqType, fqc.quorumHash) = some old ∧
        ¬ old.countSigners < fqc.countSigners) ∨
      Replaced s s' fqc ∧ ∀ old, s.kept (fqc.llmqType, fqc.quorumHash) = some old →
        old.countSigners < fqc.countSigners) := by
  have hnew : ∀ hash : Uint256, (s.minableCommitments.insertIfNew (serializeHash fqc) fqc)[hash]? =
      if hash = serializeHash fqc then some fqc else s.minableCommitments[hash]? := by
    intro hash
    rw [getElem?_insertIfNew]
    by_cases he : hash = serializeHash fqc
    · subst he
      cases hold : s.minableCommitments[serializeHash fqc]? with
      | none => simp
      | some qc => simp [hinj (h.hashed _ qc hold)]
    · simp [he]
  simp only [QuorumBlockProcessor.addMinableCommitment, kept]
  cases hk : s.minableCommitmentsByQuorum[(fqc.llmqType, fqc.quorumHash)]? with
  | none => exact ⟨_, rfl, .inr ⟨⟨rfl, hnew⟩, by simp⟩⟩
  | some oldHash =>
    obtain ⟨old, hold, -⟩ := h.found _ _ hk
    simp only [hold, demand_some, ok_bind, bind_some, some.injEq, exists_eq_left', forall_eq']
    split_ifs with hc
    · refine ⟨_, rfl, .inr ⟨⟨rfl, fun hash => ?_⟩, hc⟩⟩
      rw [getElem?_insertIfNew, getElem?_erase, getElem?_erase, if_pos rfl]
      by_cases he : hash = serializeHash fqc <;> simp [he]
    · exact ⟨s, rfl, .inl ⟨rfl, hc⟩⟩

lemma Replaced.selected (hr : Replaced s s' fqc) (h : s.Selected)
    (hn : s.kept (fqc.llmqType, fqc.quorumHash) = none) : s'.Selected := by
  refine ⟨hr.wellKept hinj h.toWellKept, fun hash qc hq => ?_⟩
  rw [hr.minable] at hq
  rw [hr.byQuorum, Maps.getElem?_insert]
  split_ifs at hq with he
  · cases hq
    rw [if_pos rfl, he]
  · have hs := h.selected hash qc hq
    rw [if_neg fun hk => ?_, hs]
    rw [← hk, kept, hs, bind_some, hq] at hn
    cases hn

/-- The induction carries which commitment stands for a quorum: what is kept for it, or else the
first one still to come. -/
lemma Selected.addAll {qcs : List FinalCommitment} (h : s.Selected)
    (hq : ∀ qc ∈ qcs, ∀ best ∈ (s.kept (qc.llmqType, qc.quorumHash)).or
      (qcs.find? fun qc' => (qc'.llmqType, qc'.quorumHash) = (qc.llmqType, qc.quorumHash)),
      ¬ best.countSigners < qc.countSigners) :
    ∃ s', qcs.foldlM QuorumBlockProcessor.addMinableCommitment s = .ok s' ∧ s'.Selected := by
  induction qcs generalizing s with
  | nil => exact ⟨s, rfl, h⟩
  | cons fqc qcs ih =>
    obtain ⟨hf, hq⟩ := List.forall_mem_cons.1 hq
    obtain ⟨s1, hs1, ⟨rfl, old, hold, -⟩ | ⟨hr, hw⟩⟩ := h.toWellKept.addMinableCommitment hinj fqc
    · rw [List.foldlM_cons, hs1, ok_bind]
      refine ih h fun qc hm best hb => hq qc hm best ?_
      rw [find?_cons]
      split
      · next he =>
        rw [← of_decide_eq_true he, hold, some_or] at hb ⊢
        exact hb
      · exact hb
    · have hk : s.kept (fqc.llmqType, fqc.quorumHash) = none := by
        by_contra hn
        obtain ⟨old, hk⟩ := ne_none_iff_exists'.1 hn
        exact hf old (by rw [hk]; rfl) (hw old hk)
      rw [List.foldlM_cons, hs1, ok_bind]
      refine ih (hr.selected hinj h hk) fun qc hm best hb => hq qc hm best ?_
      rw [hr.kept_eq hinj h.toWellKept] at hb
      rw [find?_cons]
      split_ifs at hb with he
      · simpa [he, hk] using hb
      · simpa [Ne.symm he] using hb

/-- Exactly one commitment is kept for each quorum, and only it can be found, while the first one of
each quorum has the most signers. -/
theorem selected_of_calls (qcs : List FinalCommitment) (hqcs : FirstBest qcs) :
    ∃ s, qcs.foldlM QuorumBlockProcessor.addMinableCommitment {} = .ok s ∧ s.Selected := by
  have h : Selected ({} : QuorumBlockProcessor) := by
    refine ⟨⟨fun _ _ h => ?_, fun _ _ h => ?_⟩, fun _ _ h => ?_⟩ <;> simp at h
  exact h.addAll hinj fun qc hm best hb => hqcs qc hm best (by simpa [kept] using hb)

end
end QuorumBlockProcessor

namespace Replaced

def commitment (n : Nat) : FinalCommitment :=
  { llmqType := LLMQ_5_60, quorumHash := 7, signers := replicate n true }

local instance : CommitmentHash := ⟨tableCode [commitment 1, commitment 2, commitment 5]⟩

/-- Only the first one is kept, so it is harmless that the last has more signers than the second. -/
theorem selected_first_best :
    ∃ s, [commitment 5, commitment 1, commitment 2].foldlM
      QuorumBlockProcessor.addMinableCommitment {} = .ok s ∧ s.Selected :=
  QuorumBlockProcessor.selected_of_calls (tableCode_injective _) _ (by decide)

/-- A commitment that is replaced can still be found. -/
theorem replaced_commitment_found : ∃ s, [commitment 1, commitment 2].foldlM
    QuorumBlockProcessor.addMinableCommitment {} = .ok s ∧ ¬ s.Selected := by
  obtain ⟨s, hs, hf⟩ := exists_of_map_toOption (show ([commitment 1, commitment 2].foldlM
    QuorumBlockProcessor.addMinableCommitment {}).toOption.map (fun s =>
      (s.minableCommitments[0]?, s.minableCommitmentsByQuorum[(LLMQ_5_60, 7)]?)) =
        some (some (commitment 1), some 1) by decide +kernel)
  obtain ⟨ho, hl⟩ := Prod.mk.inj hf
  exact ⟨s, hs, fun h => absurd ((h.selected 0 _ ho).symm.trans hl) (by decide)⟩

end Replaced
end Trivechain.Llmq
