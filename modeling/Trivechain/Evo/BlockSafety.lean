import Trivechain.Evo.Roll
import Trivechain.Evo.TableHash

/-!
# Blocks on reachable lists

A list is reachable when it comes from an empty one by blocks whose transactions all passed
`CheckSpecialTx`. `BuildNewListFromBlock` returns for the next such block exactly when no
transaction that it reaches is `Faulty`: an update to an operator key that another masternode got
earlier in the block, or a commitment below the height from which they are checked.
-/

namespace Trivechain.Evo
open Bls Llmq DeterministicMNList List ConsensusParams
open Run (denyIf orDeny dos Sim Returns)
open Std (ExtTreeMap)
open Run
variable [PropertyHash] [ChainHash] (env : Env)

/-- The lists that `ProcessBlock` stores. Below `DIP0003Height` they are empty. -/
inductive Reachable : BlockIndex → DeterministicMNList → Prop
  | start (pindex : BlockIndex) : pindex.nHeight < env.consensus.DIP0003Height →
    Reachable pindex { blockHash := pindex.getBlockHash }
  | block {pindexPrev : BlockIndex} {l l' : DeterministicMNList} (view : ChainView)
    (block : Block) : Reachable pindexPrev l →
    env.consensus.DIP0003Height ≤ pindexPrev.nHeight + 1 →
    view.getListForBlock pindexPrev = l → ChecksPass env view pindexPrev block →
    buildNewListFromBlock env view.ask view.getUTXOCoin pindexPrev block = .ok l' →
    Reachable (pindexPrev.next block)
      { l' with blockHash := (pindexPrev.next block).getBlockHash }

variable {env}

lemma Reachable.tracks {pindex : BlockIndex} {l : DeterministicMNList}
    (hl : Reachable env pindex l) : l.Tracks l.registry := by
  induction hl with
  | start pindex _ => exact ⟨⟨indexed_empty .., rfl⟩, Registry.sound_empty ..⟩
  | block view block _ _ hv _ hb ih =>
    subst hv
    obtain ⟨r, -, hT⟩ := (buildNewListFromBlock_sim env view _ ih block).of_ok_left hb
    rw [← hT.refines.registry_eq] at hT
    exact hT.atBlock _ _

/-- The list that `ProcessBlock` stores when the block is accepted. -/
def listAfter (env : Env) (view : ChainView) (pindexPrev : BlockIndex) (block : Block) :
    DeterministicMNList :=
  match buildNewListFromBlock env view.ask view.getUTXOCoin pindexPrev block with
  | .ok l => { l with blockHash := (pindexPrev.next block).getBlockHash }
  | .error _ => {}

lemma Reachable.next {pindexPrev : BlockIndex} {view : ChainView} {block : Block}
    (hl : Reachable env pindexPrev (view.getListForBlock pindexPrev))
    (hh : env.consensus.DIP0003Height ≤ pindexPrev.nHeight + 1)
    (hc : ChecksPass env view pindexPrev block)
    (ho : (buildNewListFromBlock env view.ask view.getUTXOCoin pindexPrev block).isOk = true) :
    Reachable env (pindexPrev.next block) (listAfter env view pindexPrev block) := by
  unfold listAfter
  cases hb : buildNewListFromBlock env view.ask view.getUTXOCoin pindexPrev block with
  | error e => simp [hb, Except.isOk, Except.toBool] at ho
  | ok l => exact .block view block hl hh rfl hc hb

namespace Registry
variable (env) (view : ChainView) (pindexPrev : BlockIndex)

/-- A commitment that does not decode, has an unknown type, or no bit for a registered member. -/
def FaultyCommitment (r : Registry) : Option FinalCommitmentTxPayload → Prop
  | none => True
  | some qc => qc.commitment.isNull = false ∧
    (env.consensus.findLLMQ qc.commitment.llmqType = none ∨
      ∃ quorumIndex members, quorumIndexOf env pindexPrev qc = .ok quorumIndex ∧
        getAllQuorumMembers env view.ask qc.commitment.llmqType quorumIndex = .ok members ∧
        ∃ (i : Nat) (dmn : DeterministicMN), members[i]? = some dmn ∧
          (r.mnMap[dmn.proTxHash]?).isSome ∧ qc.commitment.validMembers.length ≤ i)

/-- The transactions that end in a fault although they passed `CheckSpecialTx`. -/
def Faulty (r : Registry) (tx : Transaction) : Prop :=
  tx.nVersion = 3 ∧
  match tx.payload with
  | .providerUpdateRegistrar (some proTx) => (r.mnMap[proTx.proTxHash]?).isSome ∧
    r.heldByOther proTx.proTxHash (.pubKeyOperator proTx.pubKeyOperator)
  | .quorumCommitment payload => pindexPrev.nHeight ≤ commitmentCheckHeight ∧
    r.FaultyCommitment env view pindexPrev payload
  | _ => False

end Registry

open Registry
variable {r : Registry} {pindexPrev : BlockIndex} {qc : FinalCommitmentTxPayload} {view : ChainView}
variable {nHeight : Int} {tx : Transaction} {type : LLMQType} {quorum : BlockIndex}
  {members : List DeterministicMN} {block : Block}

omit [PropertyHash] in
lemma returns_register {getUTXOCoin : OutPoint → Option TxOut} {proTx : ProRegTx}
    (ho : proTx.keyIDOwner ≠ 0) : Returns (r.register getUTXOCoin nHeight tx proTx) := by
  simp [register, returns_bind, ho]

omit [PropertyHash] [ChainHash] in
lemma returns_updateRegistrar {proTx : ProUpRegTx} :
    Returns (r.updateRegistrar nHeight proTx) ↔ ¬ ((r.mnMap[proTx.proTxHash]?).isSome ∧
      r.heldByOther proTx.proTxHash (.pubKeyOperator proTx.pubKeyOperator)) := by
  simp only [updateRegistrar, returns_bind, returns_orDeny, orDeny_ok,
    returns_ensure, pure_eq, returns_ok, true_and, implies_true, and_true]
  cases r.mnMap[proTx.proTxHash]? <;> simp

omit [PropertyHash] in
lemma returns_quorumIndexOf : Returns (quorumIndexOf env pindexPrev qc) ↔
      env.consensus.findLLMQ qc.commitment.llmqType ≠ none := by
  simp [quorumIndexOf, returns_bind, getLLMQ, Option.isSome_iff_ne_none]

omit [PropertyHash] in
lemma getAllQuorumMembers_ask (view : ChainView) (type : LLMQType) (quorum : BlockIndex) :
    getAllQuorumMembers env view.ask type quorum = (do
      let params ← env.consensus.getLLMQ type
      return (view.getListForBlock quorum).calculateQuorum env params.size
        (env.modifier type quorum.getBlockHash)) := rfl

omit [PropertyHash] in
lemma returns_getAllQuorumMembers : Returns (getAllQuorumMembers env view.ask type quorum) ↔
      env.consensus.findLLMQ type ≠ none := by
  simp [getAllQuorumMembers_ask, returns_bind, getLLMQ, Option.isSome_iff_ne_none]

omit [PropertyHash] [ChainHash] in
lemma punishMember_cases (qc : FinalCommitment) (r : Registry) (entry : DeterministicMN × Nat) :
    (((r.mnMap[entry.1.proTxHash]?).isSome → entry.2 < qc.validMembers.length) ∧
      ∃ r', punishMember qc r entry = .ok r') ∨
    (((r.mnMap[entry.1.proTxHash]?).isSome ∧ qc.validMembers.length ≤ entry.2) ∧
      Registry.punishMember qc r entry = .error (.fault .undefined)) := by
  unfold Registry.punishMember
  cases r.mnMap[entry.1.proTxHash]? with
  | none => simp
  | some dmn =>
    by_cases hl : entry.2 < qc.validMembers.length
    · refine .inl ⟨fun _ => hl, ?_⟩
      simp only [bitAt, getElem?_eq_getElem hl, demand_some, ok_bind]
      split_ifs
      · exact ⟨r, rfl⟩
      · exact ⟨_, rfl⟩
    · refine .inr ⟨⟨rfl, not_lt.1 hl⟩, ?_⟩
      simp [bitAt, getElem?_eq_none (not_lt.1 hl), Run.demand]

omit [PropertyHash] in
lemma returns_punishAll {qc : FinalCommitment} (entries : List (DeterministicMN × Nat))
    (hS : r.Sound) : Returns (entries.foldlM (Registry.punishMember qc) r) ↔
      ∀ e ∈ entries, (r.mnMap[e.1.proTxHash]?).isSome → e.2 < qc.validMembers.length := by
  induction entries generalizing r with
  | nil => simp
  | cons e entries ih =>
    rw [foldlM_cons, forall_mem_cons]
    rcases punishMember_cases qc r e with
      ⟨hb, r', ho⟩ | ⟨⟨hg, hl⟩, hf⟩
    · obtain ⟨hS', hr⟩ := roll_punishMember hS ho
      have hd : ∀ h : Uint256, (r'.mnMap[h]?).isSome = (r.mnMap[h]?).isSome := fun h => by
        simpa [roll] using congrArg Option.isSome (congrFun (congrArg Roll.entry hr) h)
      rw [ho, ok_bind, ih hS']
      simp only [hd]
      exact ⟨fun h => ⟨hb, h⟩, And.right⟩
    · rw [hf]
      refine iff_of_false (not_returns_fault _) fun h => ?_
      exact absurd (h.1 hg) (not_lt.2 hl)

omit [PropertyHash] in
lemma returns_punishMembers (hS : r.Sound) : Returns (r.punishMembers env view pindexPrev qc) ↔
      ¬ r.FaultyCommitment env view pindexPrev (some qc) := by
  unfold Registry.punishMembers Registry.FaultyCommitment
  split_ifs with hnl
  · simp [hnl]
  simp only [returns_bind, returns_quorumIndexOf, returns_getAllQuorumMembers,
    returns_punishAll _ hS, mem_zipIdx_iff_getElem?, Prod.forall]
  constructor
  · rintro ⟨ht, hr⟩ ⟨-, hn | ⟨index, members, hin, hm, i, d, hi, hd, hl⟩⟩
    · exact ht hn
    · exact absurd ((hr index hin).2 members hm d i hi hd) (not_lt.2 hl)
  · intro hnt
    have ht : env.consensus.findLLMQ qc.commitment.llmqType ≠ none := fun hn =>
      hnt ⟨by simpa using hnl, .inl hn⟩
    refine ⟨ht, fun index hin => ⟨ht, fun members hm d i hi hd => ?_⟩⟩
    by_contra hl
    exact hnt ⟨by simpa using hnl, .inr ⟨index, members, hin, hm, i, d, hi, hd,
      not_lt.1 hl⟩⟩

omit [PropertyHash] in
lemma length_getAllQuorumMembers {params : LLMQParams}
    (hp : env.consensus.findLLMQ type = some params)
    (h : getAllQuorumMembers env view.ask type quorum = .ok members) :
    members.length ≤ params.size := by
  rw [getAllQuorumMembers_ask, getLLMQ, hp, demand_some, ok_bind] at h
  rw [← Except.ok.inj h]
  exact length_calculateQuorum_le ..

omit [PropertyHash] in
lemma not_faultyCommitment_of_verify {checkSigs : Bool}
    (h : qc.commitment.verify env members checkSigs = .ok true) :
    ¬ r.FaultyCommitment env view pindexPrev (some qc) := by
  obtain ⟨params, hp, hl⟩ := qc.commitment.of_verify env h
  rintro ⟨-, hn | ⟨index, members', -, hm, i, d, hi, -, he⟩⟩
  · simp [hp] at hn
  · have ht : i < members'.length := (List.getElem?_eq_some_iff.1 hi).1
    have := length_getAllQuorumMembers hp hm
    omega

omit [PropertyHash] in
lemma not_faultyCommitment_of_check {payload : Option FinalCommitmentTxPayload}
    (h : checkLLMQCommitmentPayload env view pindexPrev payload = .ok ()) :
    ¬ r.FaultyCommitment env view pindexPrev payload := by
  obtain ⟨qcTx, hp, h1⟩ := bind_ok.1 h
  obtain ⟨_, -, h2⟩ := bind_ok.1 h1
  obtain ⟨_, -, h3⟩ := bind_ok.1 h2
  obtain ⟨_, -, h4⟩ := bind_ok.1 h3
  obtain ⟨_, -, h5⟩ := bind_ok.1 h4
  obtain ⟨params, -, h6⟩ := bind_ok.1 h5
  rw [orDeny_ok.1 hp]
  by_cases hn : qcTx.commitment.isNull = true
  · rintro ⟨ht, -⟩
    simp [hn] at ht
  · rw [if_neg hn] at h6
    obtain ⟨members, -, h7⟩ := bind_ok.1 h6
    obtain ⟨valid, hv, h8⟩ := bind_ok.1 h7
    obtain rfl : valid = true := by simpa using h8
    exact not_faultyCommitment_of_verify hv

lemma returns_applyTx_iff (hS : r.Sound)
    (hc : checkSpecialTx env view (some pindexPrev) tx = .ok ()) :
    Returns (applyTx env view pindexPrev r tx) ↔ ¬ Registry.Faulty env view pindexPrev r tx := by
  by_cases hv : tx.nVersion = 3
  case neg => simp [applyTx, Registry.Faulty, hv]
  have hb := checkByType_of_checkSpecialTx env hc hv
  unfold applyTx Registry.Faulty checkByType at *
  simp only [hv, ne_eq, not_true_eq_false, if_false, true_and]
  cases hp : tx.payload with
  | normal => simp
  | unknown _ => simp
  | coinbase _ => simp
  | providerRegister payload =>
    simp only [hp] at hb
    obtain ⟨ptx, rfl, ho, -⟩ := checkProRegTx_ok hp (hb (by simp))
    simpa using returns_register ho
  | providerUpdateService payload =>
    simp only [hp] at hb
    obtain ⟨ptx, rfl, -⟩ := checkProUpServTx_ok hp (hb (by simp))
    simp [updateService, returns_bind]
  | providerUpdateRegistrar payload =>
    simp only [hp] at hb
    obtain ⟨ptx, rfl, -⟩ := checkProUpRegTx_ok hp (hb (by simp))
    simpa using returns_updateRegistrar
  | providerUpdateRevoke payload =>
    simp only [hp] at hb
    obtain ⟨ptx, rfl⟩ := checkProUpRevTx_ok hp (hb (by simp))
    simp [updateRevoke, returns_bind]
  | quorumCommitment payload =>
    simp only [hp, checkLLMQCommitment, demand_some, ok_bind] at hb
    have hr : Returns (do r.punishMembers env view pindexPrev (← Run.demand .assertion payload)) ↔
        ¬ r.FaultyCommitment env view pindexPrev payload := by
      cases payload with
      | none => simp [Registry.FaultyCommitment, Run.demand]
      | some qc => simpa using returns_punishMembers hS
    rw [hr, not_and]
    by_cases hh : commitmentCheckHeight < pindexPrev.nHeight
    · have hc := hb (by simp)
      rw [if_pos hh] at hc
      simp [not_faultyCommitment_of_check hc]
    · simp [not_lt.1 hh]

omit [PropertyHash] in
lemma returns_applyBlock_iff : Returns (r.applyBlock env view pindexPrev block) ↔
      Returns (r.applyTxs env view pindexPrev block.txs) := by
  simp [applyBlock, returns_bind]

/-- On a reachable list, `BuildNewListFromBlock` returns for a block that passed its checks exactly
when no transaction is faulty for the registry that those before it lead to. -/
theorem buildNewListFromBlock_returns_iff
    (hl : Reachable env pindexPrev (view.getListForBlock pindexPrev))
    (hchecks : ChecksPass env view pindexPrev block) :
    Returns (buildNewListFromBlock env view.ask view.getUTXOCoin pindexPrev block) ↔
      ∀ pre tx post, block.txs = pre ++ tx :: post → ∀ r,
        (view.getListForBlock pindexPrev).registry.applyTxs env view pindexPrev pre = .ok r →
        ¬ Registry.Faulty env view pindexPrev r tx := by
  have hT := hl.tracks
  rw [(buildNewListFromBlock_sim env view pindexPrev hT block).returns_iff,
    returns_applyBlock_iff, applyTxs, Run.returns_foldlM_iff]
  refine forall_congr' fun pre => forall_congr' fun tx => forall_congr' fun post =>
    forall_congr' fun hs => forall_congr' fun r => forall_congr' fun hr => ?_
  have hm : tx ∈ block.vtx := mem_of_mem_drop (hs ▸ (by simp : tx ∈ pre ++ tx :: post))
  exact returns_applyTx_iff (roll_applyTxs env view pindexPrev hT hr).1 (hchecks tx hm)

/-- On every chain a list with its indexes does what the plain registry does: both refuse a block
for the same reason, or both accept it with the same masternodes after it. -/
theorem buildNewListFromBlock_refines
    (hl : Reachable env pindexPrev (view.getListForBlock pindexPrev)) (block : Block) :
    Sim Tracks (buildNewListFromBlock env view.ask view.getUTXOCoin pindexPrev block)
      ((view.getListForBlock pindexPrev).registry.applyBlock env view pindexPrev block) :=
  buildNewListFromBlock_sim env view pindexPrev hl.tracks block

end Trivechain.Evo

namespace Trivechain.Evo.TwoUpdates

/-! ## Two updates to one operator key

Block 1 registers two masternodes, and in block 2 the owner of each sets the same new
operator key. No masternode of the list of block 1 has the key, so both updates pass. -/

def env : Env := .permissive .test .testNet

def coinbase : Transaction :=
  { nVersion := 2, payload := .normal, vin := [.null], vout := [] }

/-- The registration of the `i`-th masternode, with a collateral of its own. -/
def register (i : Nat) : Transaction where
  nVersion := 3
  payload := .providerRegister (some {
    collateralOutpoint := ⟨0, 0⟩, addr := ⟨10 + i, 19999⟩, keyIDOwner := 20 + i
    pubKeyOperator := some (30 + i), keyIDVoting := 20 + i, scriptPayout := .pubKeyHash (40 + i)
    inputsHash := 0 })
  vin := [⟨50 + i, 0⟩]
  vout := [⟨collateralAmount, .pubKeyHash (60 + i)⟩]

/-- The `i`-th masternode gets operator key 70. The hashes are those of `hashes`. -/
def update (i : Nat) : Transaction where
  nVersion := 3
  payload := .providerUpdateRegistrar (some {
    proTxHash := i + 1, pubKeyOperator := some 70, keyIDVoting := 20 + i
    scriptPayout := .pubKeyHash (40 + i), inputsHash := 0 })
  vin := [⟨80 + i, 0⟩]
  vout := []

def block0 : BlockIndex := { block := { vtx := [coinbase] } }
def block1 : Block := { vtx := [coinbase, register 0, register 1] }
def block2 : Block := { vtx := [coinbase, update 0, update 1] }

@[reducible] def hashes : ChainHash := tableHash [register 0, register 1, coinbase] [block0]

local instance : PropertyHash := encodingHash
local instance : ChainHash := hashes

def view0 : ChainView where
  getUTXOCoin _ := none
  findBlock _ := none
  getListForBlock _ := { blockHash := block0.getBlockHash }
  dip0008Active _ := false

def view1 : ChainView :=
  { view0 with
    getUTXOCoin := fun o => (block1.vtx.find? (·.getHash = o.hash)).bind (·.vout[o.n]?)
    getListForBlock := fun _ => listAfter env view0 block0 block1 }

lemma reachable_block1 : Reachable env (block0.next block1)
    (view1.getListForBlock (block0.next block1)) :=
  have hs : Reachable env block0 (view0.getListForBlock block0) := .start block0 (by decide)
  have hn : Reachable env (block0.next block1) (listAfter env view0 block0 block1) :=
    hs.next (by decide) (by decide +kernel) (by decide +kernel)
  hn

lemma checksPass_block2 : ChecksPass env view1 (block0.next block1) block2 := by
  decide +kernel

/-- The second update meets an assertion. -/
theorem two_updates_to_one_key_fault :
    Reachable env (block0.next block1) (view1.getListForBlock (block0.next block1)) ∧
    ChecksPass env view1 (block0.next block1) block2 ∧
    buildNewListFromBlock env view1.ask view1.getUTXOCoin (block0.next block1) block2 =
      .error (.fault .assertion) := by
  exact ⟨reachable_block1, checksPass_block2, by decide +kernel⟩

theorem returns_iff_on_two_updates :
    ∃ pre tx post, block2.txs = pre ++ tx :: post ∧ ∃ r, Registry.Faulty env view1
      (block0.next block1) r tx := by
  have hi := buildNewListFromBlock_returns_iff reachable_block1 checksPass_block2
  have hl : buildNewListFromBlock env view1.ask view1.getUTXOCoin (block0.next block1) block2 =
      .error (.fault .assertion) := by decide +kernel
  by_contra hn
  refine hi.2 (fun pre tx post hs r _ hf => ?_) _ hl
  exact hn ⟨pre, tx, post, hs, r, hf⟩

theorem second_update_refused : (view1.getListForBlock (block0.next block1)).registry.applyBlock
    env view1 (block0.next block1) block2 = .error (.fault .assertion) :=
  (buildNewListFromBlock_refines reachable_block1 block2).error_iff.1 (by decide +kernel)

end Trivechain.Evo.TwoUpdates

